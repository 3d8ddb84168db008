import ComponentPages.Proofs.Fetch.Token
import ComponentPages.Proofs.Growth

/-!
Directives in the body of a fetch element. The tags that carry them are written again; what is written are attributes
again, which name the same requests and ids as before and, for every loop, one more template. The ids of the templates are
drawn from the counters, so none is drawn twice.
-/
namespace ComponentPages

namespace Fetch

/-! ### Drawn ids -/

/-- The stems of the ids that fetch elements and their loops draw. -/
def stems : List Text := ["gtml-fetch", "gtml-for"]

/-- Ids that were drawn while the counters went from one state to another. -/
structure Drawn (start stop : Counters) (ids : List Text) : Prop where
  nodup : ids.Nodup
  counted : ∀ id ∈ ids, ∃ stem ∈ stems, ∃ n, start.count stem < n ∧ n ≤ stop.count stem ∧ id = stem ++ "-" ++ Text.ofNat n
  grows : ∀ stem, start.count stem ≤ stop.count stem

namespace Drawn

variable {start between stop : Counters} {ids more : List Text}

theorem refl (counters : Counters) : Drawn counters counters [] where
  nodup := List.nodup_nil
  counted := List.forall_mem_nil _
  grows _ := Nat.le_refl _

theorem next (counters : Counters) {stem : Text} (listed : stem ∈ stems) :
    Drawn counters (counters.next stem).2 [(counters.next stem).1] where
  nodup := List.nodup_singleton _
  counted := by
    refine List.forall_mem_singleton.2 ⟨stem, listed, counters.count stem + 1, Nat.lt_succ_self _, ?_, rfl⟩
    rw [Counters.count_next, if_pos rfl]
  grows := counters.le_count_next stem

/-- What is drawn later is none of what was drawn before. -/
theorem trans (first : Drawn start between ids) (second : Drawn between stop more) : Drawn start stop (ids ++ more) where
  nodup := by
    refine List.nodup_append.2 ⟨first.nodup, second.nodup, ?_⟩
    rintro id inFirst other inSecond rfl
    obtain ⟨stem, listed, n, -, before, same⟩ := first.counted id inFirst
    obtain ⟨stem', listed', m, after, -, same'⟩ := second.counted id inSecond
    obtain ⟨rfl, rfl⟩ := Counters.numbered_injective (same.symm.trans same')
    omega
  counted := by
    intro id member
    rcases List.mem_append.1 member with inFirst | inSecond
    · obtain ⟨stem, listed, n, above, below, same⟩ := first.counted id inFirst
      exact ⟨stem, listed, n, above, Nat.le_trans below (second.grows stem), same⟩
    · obtain ⟨stem, listed, n, above, below, same⟩ := second.counted id inSecond
      exact ⟨stem, listed, n, Nat.lt_of_le_of_lt (first.grows stem) above, below, same⟩
  grows stem := Nat.le_trans (first.grows stem) (second.grows stem)

theorem perm (drawn : Drawn start stop ids) (same : ids.Perm more) : Drawn start stop more where
  nodup := same.nodup_iff.1 drawn.nodup
  counted id member := drawn.counted id (same.mem_iff.2 member)
  grows := drawn.grows

end Drawn

/-! ### Attributes that are written again -/

/-- The requests and ids among attributes. -/
def identity (attributes : List Attribute) : List (Text × Option Text) :=
  attributes.filterMap fun (attr : Attribute) => if attr.name = "fetch" ∨ attr.name = "id" then some (attr.name, attr.text?) else none

/-- The ids of the loop templates among attributes. -/
def templates (attributes : List Attribute) : List Text :=
  attributes.filterMap fun (attr : Attribute) => if attr.name = "data-gtml-for" then attr.text? else none

/-- A text of attributes, each with one space before it but the first. -/
structure Spells (text : Text) (group : List PlainAttribute) : Prop where
  simple : ∀ attr ∈ group, attr.isSimple = true
  spelled : ' ' :: text = group.flatMap PlainAttribute.print

end Fetch

namespace PlainAttribute

/-- The attribute behind a single space. -/
def spaced : PlainAttribute → PlainAttribute
  | bare _ name => bare [' '] name
  | quoted _ name left right quote text => quoted [' '] name left right quote text

/-- A value between double quotes. -/
def valued (name text : Text) : PlainAttribute := quoted [' '] name [] [] '"' text

variable {attr : PlainAttribute}

@[simp] theorem scanned_spaced (attr : PlainAttribute) : attr.spaced.scanned = attr.scanned := by cases attr <;> rfl

@[simp] theorem text?_scanned (attr : PlainAttribute) : attr.scanned.text? = attr.text? := by cases attr <;> rfl

theorem print_spaced (attr : PlainAttribute) : attr.spaced.print = ' ' :: attr.scanned.raw := by cases attr <;> rfl

@[simp] theorem name_valued (name text : Text) : (valued name text).scanned.name = name := rfl

theorem print_valued (name text : Text) : (valued name text).print = ' ' :: (name ++ ("=\"" ++ (text ++ "\""))) := by
  simp [valued, print, gap, PlainAttribute.name, ending]

theorem isSimple_spaced (simple : attr.isSimple = true) : attr.spaced.isSimple = true := by
  cases attr <;> simp_all [isSimple, isSound, spaced, gap, name, isValued, text?, isGapPart, isBlank]

theorem isSimple_valued {name text : Text} (named : name ≠ [] ∧ ∀ c ∈ name, isPlainNamePart c = true ∧ c ≠ '<')
    (free : ∀ c ∈ text, isAngle c = false ∧ isQuote c = false) : (valued name text).isSimple = true := by
  have quoteFree : ∀ c ∈ text, c ≠ '"' := by
    rintro c member rfl
    exact absurd (free '"' member).2 (by decide)
  simp only [isSimple, isSound, isValued, valued, gap, PlainAttribute.name, text?, Option.getD_some, Bool.and_eq_true,
    List.all_eq_true, bne_iff_ne, Bool.not_eq_true']
  refine ⟨⟨⟨⟨⟨⟨by decide, by decide⟩, named.1⟩, fun c member => (named.2 c member).1⟩, ⟨by decide, by decide⟩, quoteFree⟩,
    fun c member => (named.2 c member).2⟩, free⟩

theorem isSound_of_isSimple (simple : attr.isSimple = true) : attr.isSound = true := by
  simp only [isSimple, Bool.and_eq_true] at simple
  exact simple.1.1

end PlainAttribute

namespace Fetch

theorem spells_spaced {attr : PlainAttribute} (simple : attr.isSimple = true) : Spells attr.scanned.raw [attr.spaced] where
  simple := List.forall_mem_singleton.2 (PlainAttribute.isSimple_spaced simple)
  spelled := by rw [List.flatMap_singleton, PlainAttribute.print_spaced]

namespace Spells

variable {text : Text} {group other : List PlainAttribute}

/-- A text is scanned into the attributes that it spells. -/
theorem tokenize (spells : Spells text group) : Attribute.tokenize (' ' :: text) = group.map PlainAttribute.scanned := by
  have scanned := @Attribute.tokenize_print group []
    (fun attr member => PlainAttribute.isSound_of_isSimple (spells.simple attr member)) (List.forall_mem_nil _)
  rwa [List.append_nil, ← spells.spelled] at scanned

/-- A text spells attributes in one way only. -/
theorem unique (spells : Spells text group) (again : Spells text other) :
    group.map PlainAttribute.scanned = other.map PlainAttribute.scanned :=
  spells.tokenize.symm.trans again.tokenize

end Spells

/-- Texts that spell groups of attributes spell them all when they are joined. -/
theorem spells_intercalate {written : List Text} {groups : List (List PlainAttribute)} (some : written ≠ [])
    (spells : List.Forall₂ Spells written groups) : Spells (List.intercalate [' '] written) groups.flatten := by
  induction spells with
  | nil => exact absurd rfl some
  | @cons text group written groups first rest ih =>
    cases rest with
    | nil => simpa using first
    | cons second more =>
      have later := ih (List.cons_ne_nil _ _)
      refine ⟨?_, ?_⟩
      · rw [List.flatten_cons]
        exact List.forall_mem_append.2 ⟨first.simple, later.simple⟩
      · rw [List.intercalate_cons_cons, List.flatten_cons, List.flatMap_append, ← first.spelled, ← later.spelled]
        simp

@[simp] theorem identity_append (first second : List Attribute) :
    identity (first ++ second) = identity first ++ identity second := List.filterMap_append

@[simp] theorem templates_append (first second : List Attribute) :
    templates (first ++ second) = templates first ++ templates second := List.filterMap_append

/-- Attributes that name neither a request nor an element nor a template. -/
structure IsNeutral (attributes : List Attribute) : Prop where
  identity : identity attributes = []
  templates : templates attributes = []

/-- The names by which requests, elements and templates are told. -/
def tellingNames : List Text := ["fetch", "id", "data-gtml-for"]

theorem isNeutral_of_names {attributes : List Attribute} (other : ∀ attr ∈ attributes, attr.name ∉ tellingNames) :
    IsNeutral attributes where
  identity := by
    refine List.filterMap_eq_nil_iff.2 fun attr member => if_neg ?_
    rintro (same | same)
    · exact other attr member (by rw [same]; decide)
    · exact other attr member (by rw [same]; decide)
  templates := by
    refine List.filterMap_eq_nil_iff.2 fun attr member => if_neg fun same => ?_
    exact other attr member (by rw [same]; decide)

theorem isNeutral_of_name {attr : Attribute} (other : attr.name ∉ tellingNames) : IsNeutral [attr] :=
  isNeutral_of_names (List.forall_mem_singleton.2 other)

/-- Attributes that tell the same requests and ids as others, and the templates of loops besides. -/
structure Retells (attributes others : List Attribute) (loops : List Loop) : Prop where
  identity : identity others = identity attributes
  templates : (templates others).Perm (templates attributes ++ loops.map Loop.templateId)

theorem Retells.refl (attributes : List Attribute) : Retells attributes attributes [] where
  identity := rfl
  templates := by rw [List.map_nil, List.append_nil]

theorem Retells.append {attributes others more evenMore : List Attribute} {loops later : List Loop}
    (first : Retells attributes others loops) (second : Retells more evenMore later) :
    Retells (attributes ++ more) (others ++ evenMore) (loops ++ later) where
  identity := by rw [identity_append, identity_append, first.identity, second.identity]
  templates := by
    rw [templates_append, templates_append, List.map_append]
    refine (first.templates.append second.templates).trans ?_
    rw [List.append_assoc, List.append_assoc]
    refine List.Perm.append_left _ ?_
    rw [← List.append_assoc, ← List.append_assoc]
    exact List.perm_append_comm.append_right _

theorem retells_of_neutral {attributes others : List Attribute} (neutral : IsNeutral attributes) (also : IsNeutral others) :
    Retells attributes others [] where
  identity := by rw [neutral.identity, also.identity]
  templates := by rw [neutral.templates, also.templates]; rfl

/-- The attributes of a loop. -/
def loopGroup (loop : Loop) : List PlainAttribute :=
  [.valued "data-gtml-for" loop.templateId, .valued "data-gtml-item" loop.item, .valued "data-gtml-source" loop.source]

/-- Neither an angle bracket nor a quote. -/
def IsBare (text : Text) : Prop := ∀ c ∈ text, isAngle c = false ∧ isQuote c = false

instance (text : Text) : Decidable (IsBare text) := inferInstanceAs (Decidable (∀ c ∈ text, _))

theorem isBare_of_isSimple {attr : PlainAttribute} (simple : attr.isSimple = true) {text : Text}
    (spoken : attr.text? = some text) : IsBare text := by
  simp only [PlainAttribute.isSimple, spoken, Option.getD_some, Bool.and_eq_true, List.all_eq_true, Bool.not_eq_true'] at simple
  exact simple.2

theorem isBare_numbered {stem : Text} (listed : stem ∈ stems) (n : Nat) : IsBare (stem ++ "-" ++ Text.ofNat n) := by
  have spelled : ∀ stem ∈ stems, ∀ c ∈ stem ++ "-", isAngle c = false ∧ isQuote c = false := by decide
  intro c member
  rcases List.mem_append.1 member with inStem | inNumber
  · exact spelled stem listed c inStem
  · have digit := Text.isDigit_of_mem_ofNat inNumber
    have part : isTagNamePart c = true := by simp [isTagNamePart, Char.isAlphanum, digit]
    have foreign {d : Char} (other : isTagNamePart d = false) : (c == d) = false :=
      beq_eq_false_iff_ne.2 (ne_of_isTagNamePart part other)
    refine ⟨isAngle_of_isTagNamePart part, ?_⟩
    rw [isQuote, foreign (by decide), foreign (by decide)]
    rfl

theorem isSimple_valued_of_isBare {name text : Text} (named : name ∈ (["id", "style", "data-gtml-for", "data-gtml-item",
    "data-gtml-source"] : List Text)) (bare : IsBare text) : (PlainAttribute.valued name text).isSimple = true := by
  have spelled : ∀ name ∈ (["id", "style", "data-gtml-for", "data-gtml-item", "data-gtml-source"] : List Text),
      name ≠ [] ∧ ∀ c ∈ name, isPlainNamePart c = true ∧ c ≠ '<' := by decide
  exact PlainAttribute.isSimple_valued (spelled name named) bare

theorem spells_valued {name text : Text} (named : name ∈ (["id", "style", "data-gtml-for", "data-gtml-item",
    "data-gtml-source"] : List Text)) (bare : IsBare text) : Spells (name ++ "=\"" ++ text ++ "\"") [.valued name text] where
  simple := List.forall_mem_singleton.2 (isSimple_valued_of_isBare named bare)
  spelled := by
    rw [List.flatMap_singleton, PlainAttribute.print_valued]
    simp

theorem spells_loopGroup {loop : Loop} (id : IsBare loop.templateId) (item : IsBare loop.item)
    (source : IsBare loop.source) : Spells (loopAttributes loop) (loopGroup loop) where
  simple := by
    simp only [loopGroup, List.forall_mem_cons]
    exact ⟨isSimple_valued_of_isBare (by decide) id, isSimple_valued_of_isBare (by decide) item,
      isSimple_valued_of_isBare (by decide) source, List.forall_mem_nil _⟩
  spelled := by
    have spelled : loopAttributes loop =
        ("data-gtml-for" ++ "=\"") ++ loop.templateId ++ ("\"" ++ ' ' :: ("data-gtml-item" ++ "=\"")) ++ loop.item ++
          ("\"" ++ ' ' :: ("data-gtml-source" ++ "=\"")) ++ loop.source ++ "\"" := rfl
    rw [spelled, loopGroup]
    generalize ("data-gtml-for" : Text) = first, ("data-gtml-item" : Text) = second, ("data-gtml-source" : Text) = third
    simp only [List.flatMap_cons, List.flatMap_nil, PlainAttribute.print_valued, List.append_assoc, List.cons_append,
      List.append_nil]

theorem retells_loopGroup {attr : Attribute} (named : attr.name = "for") (loop : Loop) :
    Retells [attr] ((loopGroup loop).map PlainAttribute.scanned) [loop] := by
  have neutral : IsNeutral [attr] := isNeutral_of_name (by rw [named]; decide)
  have others : IsNeutral ([.valued "data-gtml-item" loop.item, .valued "data-gtml-source" loop.source].map
      PlainAttribute.scanned) := by
    refine isNeutral_of_names ?_
    simp only [List.map_cons, List.map_nil, List.forall_mem_cons, PlainAttribute.name_valued]
    exact ⟨by decide, by decide, List.forall_mem_nil _⟩
  have first : identity [(PlainAttribute.valued "data-gtml-for" loop.templateId).scanned] = [] ∧
      templates [(PlainAttribute.valued "data-gtml-for" loop.templateId).scanned] = [loop.templateId] := ⟨rfl, rfl⟩
  refine ⟨?_, ?_⟩
  · rw [neutral.identity, loopGroup, List.map_cons, ← List.singleton_append, identity_append, others.identity, first.1]
    rfl
  · rw [neutral.templates, loopGroup, List.map_cons, ← List.singleton_append, templates_append, others.templates, first.2]
    rfl

/-- What a directive becomes is attributes again. -/
theorem run_directive {attr : PlainAttribute} (simple : attr.isSimple = true) {page after : Page} {result : Directive}
    (ran : (directive attr.scanned).run page = (.ok result, after)) :
    ∃ group, Spells result.written group ∧
      Retells [attr.scanned] (group.map PlainAttribute.scanned) result.loop?.toList ∧
      Drawn page.ids after.ids (result.loop?.toList.map Loop.templateId) := by
  rw [directive] at ran
  split at ran
  · next suspends =>
    rw [Bool.and_eq_true, decide_eq_true_eq] at suspends
    cases ran
    refine ⟨[.bare [' '] "data-gtml-suspense"], ⟨by decide, by decide⟩, retells_of_neutral ?_ ?_, .refl _⟩
    · exact isNeutral_of_name (by rw [suspends.1]; decide)
    · exact isNeutral_of_name (by decide)
  · split at ran
    · next falls =>
      rw [Bool.and_eq_true, decide_eq_true_eq] at falls
      cases ran
      refine ⟨[.bare [' '] "data-gtml-fallback"], ⟨by decide, by decide⟩, retells_of_neutral ?_ ?_, .refl _⟩
      · exact isNeutral_of_name (by rw [falls.1]; decide)
      · exact isNeutral_of_name (by decide)
    · split at ran
      · next loops spoken =>
        obtain ⟨⟨item, source⟩, between, read, ran⟩ := Compile.exists_of_run_bind ran
        obtain ⟨templateId, later, drawn, ran⟩ := Compile.exists_of_run_bind ran
        rw [Compile.run_lift] at read
        have parts := (Prod.mk.inj read).1
        obtain rfl := (Prod.mk.inj read).2
        rw [Compile.run_nextId] at drawn
        cases drawn
        cases ran
        rw [PlainAttribute.text?_scanned] at spoken
        have bare := isBare_of_isSimple simple spoken
        have subset := subset_of_readLoop parts
        have spells := @spells_loopGroup ⟨_, item, source⟩ (@isBare_numbered "gtml-for" (by decide) (page.ids.count "gtml-for" + 1))
          (fun c member => bare c (subset.1 member)) fun c member => bare c (subset.2 member)
        exact ⟨_, spells, retells_loopGroup (beq_iff_eq.1 loops) _, Drawn.next page.ids (by decide)⟩
      · cases ran
        refine ⟨[attr.spaced], spells_spaced simple, ?_, .refl _⟩
        rw [List.map_singleton, PlainAttribute.scanned_spaced]
        exact .refl _

/-- The attributes of a tag are written again one by one. -/
theorem run_directives {attributes : List PlainAttribute} (simple : ∀ attr ∈ attributes, attr.isSimple = true)
    {page after : Page} {directives : List Directive}
    (ran : ((attributes.map PlainAttribute.scanned).mapM directive).run page = (.ok directives, after)) :
    ∃ groups, List.Forall₂ Spells (directives.map Directive.written) groups ∧
      Retells (attributes.map PlainAttribute.scanned) (groups.flatten.map PlainAttribute.scanned)
        (directives.filterMap Directive.loop?) ∧
      Drawn page.ids after.ids ((directives.filterMap Directive.loop?).map Loop.templateId) := by
  induction attributes generalizing page directives with
  | nil =>
    cases ran
    exact ⟨[], .nil, .refl [], .refl _⟩
  | cons attr attributes ih =>
    obtain ⟨here, later⟩ := List.forall_mem_cons.1 simple
    rw [List.map_cons, List.mapM_cons] at ran
    obtain ⟨first, between, firstRan, ran⟩ := Compile.exists_of_run_bind ran
    obtain ⟨others, last, othersRan, ran⟩ := Compile.exists_of_run_bind ran
    cases ran
    obtain ⟨group, spells, retells, drawn⟩ := run_directive here firstRan
    obtain ⟨groups, allSpell, allRetell, allDrawn⟩ := ih later othersRan
    have loops : (first :: others).filterMap Directive.loop? = first.loop?.toList ++ others.filterMap Directive.loop? := by
      cases kind : first.loop? with
      | none => simp [kind]
      | some loop => simp [kind]
    refine ⟨group :: groups, .cons spells allSpell, ?_, ?_⟩
    · rw [loops, List.flatten_cons, List.map_append, List.map_cons, ← List.singleton_append]
      exact retells.append allRetell
    · rw [loops, List.map_append]
      exact drawn.trans allDrawn

/-- Where one text is written for another, and both spell neutral attributes, what is told stays the same. -/
theorem retells_replaceFirst {old new : Text} {one other : List PlainAttribute} (oldSpells : Spells old one)
    (newSpells : Spells new other) (oldNeutral : IsNeutral (one.map PlainAttribute.scanned))
    (newNeutral : IsNeutral (other.map PlainAttribute.scanned)) {written : List Text} {groups : List (List PlainAttribute)}
    (spells : List.Forall₂ Spells written groups) :
    ∃ replaced, List.Forall₂ Spells (replaceFirst old new written) replaced ∧
      Retells (groups.flatten.map PlainAttribute.scanned) (replaced.flatten.map PlainAttribute.scanned) [] := by
  induction spells with
  | nil => exact ⟨[], .nil, .refl []⟩
  | @cons text group written groups first rest ih =>
    rw [replaceFirst]
    by_cases same : text = old
    · subst same
      have neutral : IsNeutral (group.map PlainAttribute.scanned) := by rwa [first.unique oldSpells]
      rw [if_pos rfl]
      refine ⟨other :: groups, .cons newSpells rest, ?_⟩
      rw [List.flatten_cons, List.flatten_cons, List.map_append, List.map_append]
      exact (retells_of_neutral neutral newNeutral).append (.refl _)
    · obtain ⟨replaced, spells, retells⟩ := ih
      rw [if_neg same]
      refine ⟨group :: replaced, .cons first spells, ?_⟩
      rw [List.flatten_cons, List.flatten_cons, List.map_append, List.map_append]
      exact (Retells.refl _).append retells

/-- Hiding an element writes a style. -/
theorem retells_hide {attributes : List PlainAttribute} (simple : ∀ attr ∈ attributes, attr.isSimple = true)
    {written : List Text} {groups : List (List PlainAttribute)} (spells : List.Forall₂ Spells written groups) :
    ∃ hidden, List.Forall₂ Spells (hide (attributes.map PlainAttribute.scanned) written) hidden ∧
      Retells (groups.flatten.map PlainAttribute.scanned) (hidden.flatten.map PlainAttribute.scanned) [] := by
  have styled {css : Text} (bare : IsBare css) : Spells ("style=\"" ++ css ++ "\"") [.valued "style" css] :=
    @spells_valued "style" css (by decide) bare
  have neutral (css : Text) : IsNeutral ([PlainAttribute.valued "style" css].map PlainAttribute.scanned) :=
    isNeutral_of_name (by rw [PlainAttribute.name_valued]; decide)
  have appended : ∃ hidden, List.Forall₂ Spells (written ++ [("style=\"display:none\"" : Text)]) hidden ∧
      Retells (groups.flatten.map PlainAttribute.scanned) (hidden.flatten.map PlainAttribute.scanned) [] := by
    have bare : IsBare "display:none" := by decide
    have spelled : Spells "style=\"display:none\"" [.valued "style" "display:none"] := styled bare
    refine ⟨groups ++ [[.valued "style" "display:none"]], List.rel_append spells (.cons spelled .nil), ?_⟩
    have none : IsNeutral ([] : List Attribute) := ⟨rfl, rfl⟩
    have hidden := (Retells.refl (groups.flatten.map PlainAttribute.scanned)).append
      (retells_of_neutral none (neutral "display:none"))
    rw [List.flatten_append, List.map_append]
    rwa [List.append_nil] at hidden
  unfold hide
  dsimp only
  split
  · next attr css found spoken =>
    rw [found, Option.bind_some] at spoken
    obtain ⟨plain, listed, rfl⟩ := List.mem_map.1 (List.mem_of_find?_eq_some found)
    have named : plain.scanned.name = "style" := by
      rw [Attribute.find?] at found
      simpa using List.find?_some found
    have plainSimple := simple plain listed
    rw [PlainAttribute.text?_scanned] at spoken
    have bare := isBare_of_isSimple plainSimple spoken
    have hiddenBare : IsBare ("display:none;" ++ css) := by
      have front : IsBare "display:none;" := by decide
      exact fun c member => (List.mem_append.1 member).elim (front c) (bare c)
    have spelled := styled hiddenBare
    rw [← List.append_assoc] at spelled
    refine retells_replaceFirst (spells_spaced plainSimple) spelled ?_ (neutral _) spells
    exact isNeutral_of_name (by rw [PlainAttribute.scanned_spaced, named]; decide)
  · exact appended

theorem replaceFirst_ne_nil {written : List Text} (some : written ≠ []) (old new : Text) : replaceFirst old new written ≠ [] := by
  cases written with
  | nil => exact absurd rfl some
  | cons text written =>
    rw [replaceFirst]
    split
    · exact List.cons_ne_nil _ _
    · exact List.cons_ne_nil _ _

theorem hide_ne_nil {written : List Text} (some : written ≠ []) (attributes : List Attribute) : hide attributes written ≠ [] := by
  unfold hide
  dsimp only
  split
  · exact replaceFirst_ne_nil some _ _
  · exact List.append_ne_nil_of_left_ne_nil some _

/-- The attributes of a tag with directives are joined to attributes again. -/
theorem run_directiveAttributes {attributes : List PlainAttribute} (simple : ∀ attr ∈ attributes, attr.isSimple = true)
    (some : attributes ≠ []) {page after : Page} {written : List Text} {loops : List Loop}
    (ran : (directiveAttributes (attributes.map PlainAttribute.scanned)).run page = (.ok (written, loops), after)) :
    ∃ group, Spells (List.intercalate [' '] written) group ∧
      Retells (attributes.map PlainAttribute.scanned) (group.map PlainAttribute.scanned) loops ∧
      Drawn page.ids after.ids (loops.map Loop.templateId) := by
  obtain ⟨directives, between, mapped, ran⟩ := Compile.exists_of_run_bind ran
  cases ran
  obtain ⟨groups, spells, retells, drawn⟩ := run_directives simple mapped
  have written : directives.map Directive.written ≠ [] := by
    obtain ⟨attr, attributes, rfl⟩ := List.exists_cons_of_ne_nil some
    rw [List.map_cons, List.mapM_cons] at mapped
    obtain ⟨first, later, -, mapped⟩ := Compile.exists_of_run_bind mapped
    obtain ⟨others, last, -, mapped⟩ := Compile.exists_of_run_bind mapped
    cases mapped
    exact List.cons_ne_nil _ _
  split
  · obtain ⟨hidden, hiddenSpells, hiddenRetells⟩ := retells_hide simple spells
    refine ⟨hidden.flatten, spells_intercalate (hide_ne_nil written _) hiddenSpells, ⟨?_, ?_⟩, drawn⟩
    · rw [hiddenRetells.identity, retells.identity]
    · refine hiddenRetells.templates.trans ?_
      rw [List.map_nil, List.append_nil]
      exact retells.templates
  · exact ⟨groups.flatten, spells_intercalate written spells, retells, drawn⟩

/-! ### Tags that are written again -/

/-- The ids of the loop templates in a text. -/
def templatesOf (tokens : List Token) : List Text :=
  tokens.flatMap fun token => token.head?.elim [] fun head => templates head.scanned

@[simp] theorem templatesOf_nil : templatesOf [] = [] := rfl

@[simp] theorem templatesOf_cons (token : Token) (tokens : List Token) :
    templatesOf (token :: tokens) = (token.head?.elim [] fun head => templates head.scanned) ++ templatesOf tokens :=
  List.flatMap_cons

@[simp] theorem templatesOf_append (first second : List Token) :
    templatesOf (first ++ second) = templatesOf first ++ templatesOf second :=
  List.flatMap_append

/-- A part of a text, or a tag of the same name with attributes that tell the same requests and ids. -/
inductive Alike : Token → Token → Prop
  | refl (token : Token) : Alike token token
  | opening {name : Text} {head other : PlainHead} (sound : other.isSound = true)
      (same : identity other.scanned = identity head.scanned) : Alike (.opening name head) (.opening name other)

/-- A text with its directives lowered, which start loops. -/
structure Marked (tokens marked : List Token) (loops : List Loop) : Prop where
  alike : List.Forall₂ Alike tokens marked
  templates : (templatesOf marked).Perm (templatesOf tokens ++ loops.map Loop.templateId)

namespace Marked

variable {tokens marked : List Token} {loops : List Loop}

theorem nil : Marked [] [] [] := ⟨.nil, List.Perm.refl _⟩

/-- A part of the text that stays as it is. -/
theorem keep (token : Token) (later : Marked tokens marked loops) : Marked (token :: tokens) (token :: marked) loops where
  alike := .cons (.refl token) later.alike
  templates := by
    rw [templatesOf_cons, templatesOf_cons, List.append_assoc]
    exact later.templates.append_left _

/-- A tag that is written again. -/
theorem rewrite {name : Text} {head other : PlainHead} (sound : other.isSound = true) {first : List Loop}
    (retells : Retells head.scanned other.scanned first) (later : Marked tokens marked loops) :
    Marked (.opening name head :: tokens) (.opening name other :: marked) (first ++ loops) where
  alike := .cons (.opening sound retells.identity) later.alike
  templates := by
    rw [templatesOf_cons, templatesOf_cons, List.map_append]
    refine (retells.templates.append later.templates).trans ?_
    rw [List.append_assoc, List.append_assoc]
    refine List.Perm.append_left _ ?_
    rw [← List.append_assoc, ← List.append_assoc]
    exact List.perm_append_comm.append_right _

end Marked

/-- A tag with directives, written again. -/
theorem openTag_spelled {text : Text} {group : List PlainAttribute} (spells : Spells text group) (name tail : Text) :
    "<" ++ name ++ " " ++ text ++ tail ++ ">" = openTag name (PlainHead.print ⟨group, tail⟩) := by
  rw [openTag, PlainHead.print, ← spells.spelled]
  simp

theorem isSound_spelled {text : Text} {group : List PlainAttribute} (spells : Spells text group) {tail : Text}
    (gap : tail.all isGapPart = true) : PlainHead.isSound ⟨group, tail⟩ = true := by
  rw [PlainHead.isSound, List.all_eq_true.2 spells.simple, gap]
  rfl

/-- The tags of a text are written again one by one; what was passed over before is copied. -/
theorem run_directivesFrom {tokens front pending : List Token} (sound : ∀ token ∈ tokens, token.isSound = true)
    {page after : Page} {text : Text} {loops : List Loop}
    (ran : (directivesFrom (printTokens (front ++ (pending ++ tokens))) (printTokens front).length
      (marksOf (printTokens (front ++ pending)).length tokens)).run page = (.ok (text, loops), after)) :
    ∃ marked, text = printTokens (pending ++ marked) ∧ Marked tokens marked loops ∧
      Drawn page.ids after.ids (loops.map Loop.templateId) := by
  induction tokens generalizing front pending page text loops with
  | nil =>
    rw [marksOf, directivesFrom] at ran
    cases ran
    exact ⟨[], by rw [printTokens_append, List.drop_left], .nil, .refl _⟩
  | cons token tokens ih =>
    obtain ⟨here, later⟩ := List.forall_mem_cons.1 sound
    have passed {page : Page} {text : Text} {loops : List Loop}
        (ran : (directivesFrom (printTokens (front ++ (pending ++ token :: tokens))) (printTokens front).length
          (marksOf ((printTokens (front ++ pending)).length + token.print.length) tokens)).run page =
            (.ok (text, loops), after)) :
        ∃ marked, text = printTokens (pending ++ marked) ∧ Marked (token :: tokens) marked loops ∧
          Drawn page.ids after.ids (loops.map Loop.templateId) := by
      have split : pending ++ token :: tokens = (pending ++ [token]) ++ tokens := by simp
      have size : (printTokens (front ++ pending)).length + token.print.length =
          (printTokens (front ++ (pending ++ [token]))).length := by
        simp [Nat.add_assoc]
      rw [split, size] at ran
      obtain ⟨marked, whole, others, drawn⟩ := ih later ran
      exact ⟨token :: marked, by rw [whole]; simp, others.keep token, drawn⟩
    rw [marksOf] at ran
    cases token with
    | words | closing | script => exact passed ran
    | opening name head =>
      simp only [Token.isSound, Bool.and_eq_true] at here
      have isHead := PlainHead.isTagHead_print here.2
      have reached : ¬(printTokens (front ++ pending)).length < (printTokens front).length := by
        rw [printTokens_append, List.length_append]
        omega
      rw [Token.mark?, Option.toList_some, List.singleton_append, directivesFrom, if_neg reached] at ran
      dsimp only at ran
      rw [isHead.reads] at ran
      dsimp only at ran
      obtain ⟨_, noted, note, ran⟩ := Compile.exists_of_run_bind ran
      rw [Compile.run_note] at note
      obtain rfl := (Prod.mk.inj note).2
      rw [PlainHead.tokenize_print here.2] at ran
      split at ran
      · next directed =>
        obtain ⟨⟨written, first⟩, between, attributesRan, ran⟩ := Compile.exists_of_run_bind ran
        obtain ⟨⟨others, more⟩, last, othersRan, ran⟩ := Compile.exists_of_run_bind ran
        cases ran
        have some : head.attributes ≠ [] := by
          intro none
          rw [PlainHead.scanned, none] at directed
          cases directed
        have simple : ∀ attr ∈ head.attributes, attr.isSimple = true := by
          rw [PlainHead.isSound, Bool.and_eq_true, List.all_eq_true] at here
          exact here.2.1
        obtain ⟨group, spells, retells, drawn⟩ := run_directiveAttributes simple some attributesRan
        obtain ⟨tail, gap, written'⟩ : ∃ tail : Text, tail.all isGapPart = true ∧
            (if TagHead.closesItself head.print then (" /" : Text) else "") = tail := by
          refine ⟨_, ?_, rfl⟩
          split <;> decide
        rw [written']
        have split : front ++ (pending ++ .opening name head :: tokens) =
            (front ++ pending ++ [.opening name head]) ++ ([] ++ tokens) := by simp
        have stop : (printTokens (front ++ pending)).length + name.length + head.print.length + 2 =
            (printTokens (front ++ pending ++ [.opening name head])).length := by
          simp [Token.print, openTag]
          omega
        have size : (printTokens (front ++ pending)).length + (Token.opening name head).print.length =
            (printTokens (front ++ pending ++ [.opening name head] ++ [])).length := by
          simp [Nat.add_assoc]
        rw [stop, split, size] at othersRan
        obtain ⟨marked, whole, laterMarked, laterDrawn⟩ := ih later othersRan
        refine ⟨.opening name ⟨group, tail⟩ :: marked, ?_, laterMarked.rewrite (isSound_spelled spells gap) retells, ?_⟩
        · have copied := slice_printTokens front pending (.opening name head :: tokens)
          rw [List.nil_append] at whole
          rw [copied, printTokens_append pending, printTokens_cons, Token.print, ← openTag_spelled spells, whole,
            List.append_assoc]
        · rw [List.map_append]
          exact drawn.trans laterDrawn
      · have kept := passed ran
        exact kept

end Fetch

end ComponentPages
