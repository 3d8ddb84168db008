import ComponentPages.Proofs.Compilation
import ComponentPages.Proofs.Text

/-!
Operations that are not defined everywhere: reading a text at an index, looking a name up, taking the first of a list,
dividing. A checked computation goes through such operations one by one and crashes where one of them is used outside
of what it is defined on, or where a loop does not get on. A crash is no failure: a failure is what a compilation
reports about the text it is given. Loops over the places of a text are written once here, with the lemma that tells
what they come to.
-/
namespace ComponentPages

variable {α β σ ρ : Type}

/-- How an operation is used where it is not defined: an index outside of a text or list, a name that a table lacks, a
value that a list lacks, a list of another length than the one expected, a value that is not there, a text that is no
number, a division by zero, an empty stack, a loop that does not get on. -/
inductive Crash where
  | index | key | absent | unpacking | missing | number | division | stack | endless
deriving DecidableEq

abbrev Checked := Except Crash

namespace Checked

/-- The value of an option that is expected to have one. -/
def require (crash : Crash) : Option α → Checked α
  | some value => .ok value
  | none => .error crash

def charAt (text : Text) (index : Nat) : Checked Char := require .index text[index]?

def first (list : List α) : Checked α := require .index list.head?

def last (list : List α) : Checked α := require .index list.getLast?

def lookup (name : Text) (table : Bindings α) : Checked α := require .key (table.lookup name)

/-- The number that a run of digits writes. -/
def number (digits : Text) : Checked Nat := require .number (Text.toNat? digits)

/-- The two elements of a list of two. -/
def pair : List α → Checked (α × α)
  | [one, two] => .ok (one, two)
  | _ => .error .unpacking

/-- The quotient, rounded towards zero. -/
def quotient (dividend divisor : Int) : Checked Int :=
  if divisor = 0 then .error .division else .ok (dividend.tdiv divisor)

@[simp] theorem ok_bind {ε : Type} (value : α) (next : α → Except ε β) : (.ok value >>= next) = next value := rfl

@[simp] theorem map_ok (f : α → β) (value : α) : (.ok value : Checked α).map f = .ok (f value) := rfl

theorem charAt_of_drop {text rest : Text} {index : Nat} {c : Char} (stands : text.drop index = c :: rest) :
    charAt text index = .ok c := by
  have here : text[index]? = some c := by rw [← List.head?_drop, stands, List.head?_cons]
  rw [charAt, here, require]

/-- What is found behind a character, placed from that character on and from behind it. -/
theorem place_cons (index : Nat) (c : Char) (found : Option (Text × α)) :
    (found.map fun parts => (c :: parts.1, parts.2)).map (fun parts => index + parts.1.length) =
      found.map fun parts => index + 1 + parts.1.length := by
  rw [Option.map_map]
  congr 1
  funext parts
  simp only [Function.comp_apply, List.length_cons]
  omega

theorem quotient_of_ne {dividend divisor : Int} (positive : divisor ≠ 0) :
    quotient dividend divisor = .ok (dividend.tdiv divisor) :=
  if_neg positive

/-- The first result that a list gives. -/
def findFirst (f : α → Checked (Option β)) : List α → Checked (Option β)
  | [] => .ok none
  | a :: list => do
    match ← f a with
    | some result => .ok (some result)
    | none => findFirst f list

theorem findFirst_eq {f : α → Checked (Option β)} {g : α → Option β} {list : List α}
    (sound : ∀ a ∈ list, f a = .ok (g a)) : findFirst f list = .ok (list.findSome? g) := by
  induction list with
  | nil => rfl
  | cons a list ih =>
    rw [findFirst, sound a List.mem_cons_self, ok_bind, List.findSome?_cons]
    cases g a with
    | some result => rfl
    | none => exact ih fun b member => sound b (List.mem_cons_of_mem a member)

theorem mapM_eq {f : α → Checked β} {g : α → β} {list : List α} (sound : ∀ a ∈ list, f a = .ok (g a)) :
    list.mapM f = .ok (list.map g) := by
  induction list with
  | nil => rfl
  | cons a list ih =>
    rw [List.mapM_cons, sound a List.mem_cons_self, ok_bind, ih fun b member => sound b (List.mem_cons_of_mem a member)]
    rfl

/-- How a round of a loop ends: with a result for the whole loop, or with the state of the next round. -/
inductive Turn (σ ρ : Type) where
  | stop (result : ρ)
  | next (state : σ)

namespace Turn

/-- What the loop comes to, given what it comes to from the next round on. -/
def result (turn : Turn σ ρ) (later : σ → ρ) : ρ :=
  match turn with
  | .stop result => result
  | .next state => later state

/-- The next round is at a given index. -/
def goTo (index : Nat) : Turn σ ρ → Turn (σ × Nat) ρ
  | .stop result => .stop result
  | .next state => .next (state, index)

end Turn

/-- Goes through a text from an index on while that is inside of it. A round names the index of the next one, which must
be greater. -/
def loop (text : Text) (turn : σ → Nat → Checked (Turn (σ × Nat) ρ)) (finish : σ → Nat → ρ) (state : σ) (index : Nat) :
    Checked ρ :=
  if _inside : index < text.length then
    match turn state index with
    | .error crash => .error crash
    | .ok (.stop result) => .ok result
    | .ok (.next (next, later)) =>
      if _onward : index < later then loop text turn finish next later else .error .endless
  else .ok (finish state index)
termination_by text.length - index

/-- Reads a text from an index on, character by character. -/
def each (text : Text) (turn : σ → Nat → Char → Turn σ ρ) (finish : σ → Nat → ρ) (state : σ) (index : Nat) : Checked ρ :=
  loop text (fun state index => (charAt text index).map fun c => (turn state index c).goTo (index + 1)) finish state index

/-- Reads a text backwards, character by character, from before an index. -/
def backward (text : Text) (turn : σ → Nat → Char → Checked (Turn σ ρ)) (finish : σ → ρ) (state : σ) : Nat → Checked ρ
  | 0 => .ok (finish state)
  | index + 1 => do
    let c ← charAt text index
    match ← turn state index c with
    | .stop result => .ok result
    | .next state => backward text turn finish state index

section Loops

variable {text : Text} {finish : σ → Nat → ρ}

theorem loop_eq {turn : σ → Nat → Checked (Turn (σ × Nat) ρ)} (m : σ → Nat → Text → ρ)
    (finished : ∀ state index, finish state index = m state index [])
    (turned : ∀ state index c rest, text.drop index = c :: rest →
      turn state index = .ok (.stop (m state index (c :: rest))) ∨
        ∃ next later, turn state index = .ok (.next (next, later)) ∧ index < later ∧
          m next later (text.drop later) = m state index (c :: rest)) (state : σ) (index : Nat) :
    loop text turn finish state index = .ok (m state index (text.drop index)) := by
  unfold loop
  split
  · next inside =>
    have stands := List.drop_eq_getElem_cons inside
    rw [stands]
    rcases turned state index _ _ stands with stopped | ⟨next, later, passed, onward, same⟩
    · rw [stopped]
    · rw [passed]
      dsimp only
      rw [dif_pos onward, loop_eq m finished turned next later, same]
  · next outside =>
    rw [finished, List.drop_eq_nil_of_le (Nat.le_of_not_lt outside)]
termination_by text.length - index

theorem each_eq {turn : σ → Nat → Char → Turn σ ρ} (m : σ → Nat → Text → ρ)
    (finished : ∀ state index, finish state index = m state index [])
    (turned : ∀ state index c rest, text.drop index = c :: rest →
      m state index (c :: rest) = (turn state index c).result fun next => m next (index + 1) rest)
    (state : σ) (index : Nat) : each text turn finish state index = .ok (m state index (text.drop index)) := by
  refine loop_eq m finished (fun state index c rest stands => ?_) state index
  rw [charAt_of_drop stands, turned state index c rest stands]
  cases turned : turn state index c with
  | stop result => exact .inl (by rw [Except.map, turned]; rfl)
  | next next =>
    have rest_eq : text.drop (index + 1) = rest := Text.drop_succ_of_cons stands
    exact .inr ⟨next, index + 1, by rw [Except.map, turned]; rfl, Nat.lt_succ_self index, by rw [rest_eq]; rfl⟩

theorem backward_eq {turn : σ → Nat → Char → Checked (Turn σ ρ)} {finish : σ → ρ} (m : σ → Text → ρ)
    (finished : ∀ state, finish state = m state [])
    (turned : ∀ state index c, text[index]? = some c → ∃ turn', turn state index c = .ok turn' ∧
      m state (c :: (text.take index).reverse) = turn'.result fun next => m next (text.take index).reverse)
    (state : σ) {index : Nat} (within : index ≤ text.length) :
    backward text turn finish state index = .ok (m state (text.take index).reverse) := by
  induction index generalizing state with
  | zero => rw [backward, finished, List.take_zero, List.reverse_nil]
  | succ index ih =>
    have here : text[index]? = some text[index] := List.getElem?_eq_getElem within
    have backwards : (text.take (index + 1)).reverse = text[index] :: (text.take index).reverse := by
      rw [List.take_succ_eq_append_getElem within, List.reverse_append, List.reverse_singleton, List.singleton_append]
    obtain ⟨turn', turned', same⟩ := turned state index _ here
    have read : charAt text index = .ok text[index] := by rw [charAt, here, require]
    rw [backwards, same, backward, read]
    change (turn state index text[index] >>= _) = _
    rw [turned']
    cases turn' with
    | stop result => rfl
    | next next => exact ih next (Nat.le_of_succ_le within)

end Loops

end Checked

/-- A computation with checked operations in it. -/
abbrev Guarded (m : Type → Type) := ExceptT Crash m

namespace Guarded

variable {m : Type → Type} [Monad m]

/-- A computation in which nothing can crash. -/
def embed (plain : m α) : Guarded m α := ExceptT.lift plain

def check (checked : Checked α) : Guarded m α := ExceptT.mk (pure checked)

/-- A guarded result that needs nothing of the page. -/
def lift (result : Guarded (Except Failure) α) : Guarded Compile α := ExceptT.mk (Compile.lift result.run)

theorem check_ok {value : α} {checked : Checked α} (sound : checked = .ok value) :
    (check checked : Guarded m α) = pure value := by
  rw [sound]
  rfl

theorem embed_ite {p : Prop} [Decidable p] (yes no : m α) :
    (embed (if p then yes else no) : Guarded m α) = if p then embed yes else embed no := by
  split <;> rfl

variable [LawfulMonad m]

theorem embed_pure (value : α) : (embed (pure value) : Guarded m α) = pure value := by
  apply ExceptT.ext
  change Except.ok <$> (pure value : m α) = pure (.ok value)
  rw [map_pure]

theorem embed_bind (first : m α) (second : α → m β) :
    embed (first >>= second) = embed first >>= fun value => embed (second value) := by
  apply ExceptT.ext
  change Except.ok <$> (first >>= second) = (Except.ok <$> first) >>= ExceptT.bindCont fun value => embed (second value)
  rw [map_bind, bind_map_left]
  rfl

theorem embed_map (f : α → β) (plain : m α) : embed (f <$> plain) = f <$> (embed plain : Guarded m α) := by
  rw [map_eq_pure_bind, embed_bind, map_eq_pure_bind]
  exact bind_congr fun value => embed_pure (f value)

theorem mapM_congr {f g : α → m β} {list : List α} (same : ∀ a ∈ list, f a = g a) : list.mapM f = list.mapM g := by
  induction list with
  | nil => rfl
  | cons a list ih =>
    rw [List.mapM_cons, List.mapM_cons, same a List.mem_cons_self,
      ih fun b member => same b (List.mem_cons_of_mem a member)]

/-- What is made of a result in the end needs no check. -/
theorem embed_bind_pure (plain : m α) (f : α → β) :
    embed (plain >>= fun value => pure (f value)) = (embed plain : Guarded m α) >>= fun value => pure (f value) := by
  rw [embed_bind]
  exact bind_congr fun value => embed_pure (f value)

theorem embed_mapM (f : α → m β) (list : List α) :
    (embed (list.mapM f) : Guarded m (List β)) = list.mapM fun a => embed (f a) := by
  induction list with
  | nil => exact embed_pure []
  | cons a list ih =>
    rw [List.mapM_cons, List.mapM_cons, embed_bind]
    refine bind_congr fun first => ?_
    rw [embed_bind, ih]
    exact bind_congr fun others => embed_pure _

theorem embed_foldlM (f : β → α → m β) (list : List α) (start : β) :
    (embed (list.foldlM f start) : Guarded m β) = list.foldlM (fun b a => embed (f b a)) start := by
  induction list generalizing start with
  | nil => exact embed_pure start
  | cons a list ih =>
    rw [List.foldlM_cons, List.foldlM_cons, embed_bind]
    exact bind_congr fun next => ih next

theorem embed_ok (value : α) : (embed (.ok value) : Guarded (Except Failure) α) = pure value := rfl

theorem lift_embed (result : Except Failure α) : lift (embed result) = embed (Compile.lift result) := by
  cases result <;> rfl

end Guarded

end ComponentPages
