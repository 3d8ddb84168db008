import ComponentPages.BrowserScript
import ComponentPages.Fetch.Lowering
import ComponentPages.Proofs.Hook.Carrying
import ComponentPages.Proofs.Pattern
import ComponentPages.Proofs.Script.Literal

/-!
Where a script element is closed. A browser ends a script element at the first `</script` in it, in whatever letter case
and in whatever string or comment it stands. A generated script must therefore hold it once, as its closing tag. What is
inserted in the script of a fetch element has no slash behind an angle bracket, so nothing in it can close the element;
and the quoted strings among it end at the quotes of the bundled text, so nothing in them is run as script.
-/
namespace ComponentPages

/-- Only a capital letter has a lower case other than itself. -/
theorem eq_of_toLower {c d : Char} (other : d.isLower = false) (lower : c.toLower = d) : c = d := by
  by_cases capital : c.isUpper = true
  · have codes : ∀ code < 91, (Char.ofNat code).isUpper = true → (Char.ofNat code).toLower.isLower = true := by decide
    have bound : c.toNat < 91 := by
      simp only [Char.isUpper, decide_eq_true_eq] at capital
      exact Nat.lt_succ_of_le (UInt32.le_iff_toNat_le.1 capital.2)
    have letter := codes c.toNat bound
    rw [Char.ofNat_toNat, lower, other] at letter
    exact absurd (letter capital) Bool.false_ne_true
  · rw [Char.isUpper, decide_eq_true_eq] at capital
    rwa [Char.toLower, dif_neg capital] at lower

namespace Script

/-- `</script` in any letter case. -/
def closer : Pattern Unit := fun text =>
  if ("</script" : Text) <+: text.map Char.toLower then some ((), text.drop 8) else none

/-- The only `</script` of a script element is its closing tag. -/
def ClosesOnce (script : Text) : Prop :=
  ∃ body, script = body ++ "</script>" ∧
    ∀ before after, script = before ++ after → (closer after).isSome → before = body

theorem closer_eq_none {c : Char} {rest : Text} (apart : c = '<' → rest.head? ≠ some '/') : closer (c :: rest) = none := by
  rw [closer, if_neg]
  intro closes
  obtain ⟨angle, closes⟩ := List.cons_prefix_cons.1
    (show '<' :: ("/script" : Text) <+: c.toLower :: rest.map Char.toLower from closes)
  cases rest with
  | nil => exact absurd (List.prefix_nil.1 closes) (by decide)
  | cons d rest =>
    obtain ⟨slash, -⟩ := List.cons_prefix_cons.1
      (show '/' :: ("script" : Text) <+: d.toLower :: rest.map Char.toLower from closes)
    exact apart (eq_of_toLower (by decide) angle.symm) (congrArg some (eq_of_toLower (by decide) slash.symm))

/-- A script is closed once if nothing closes it before its closing tag. -/
theorem closesOnce_of_passes {body : Text} (passes : Pattern.Passes closer body "</script>") :
    ClosesOnce (body ++ "</script>") := by
  refine ⟨body, rfl, fun before after whole closes => ?_⟩
  rcases List.append_eq_append_iff.1 whole with ⟨gap, longer, tag⟩ | ⟨gap, longer, remains⟩
  · cases gap with
    | nil => rw [longer, List.append_nil]
    | cons c gap =>
      -- Only the first character of the closing tag is an angle bracket.
      have inside : ∀ c ∈ ("/script>" : Text), c ≠ '<' := by decide
      have behind : after <:+ ("/script>" : Text) := ⟨gap, (List.cons.inj tag).2.symm⟩
      cases after with
      | nil => exact absurd closes (by decide)
      | cons d after =>
        rw [closer_eq_none fun angle => absurd angle (inside d (behind.subset List.mem_cons_self))] at closes
        cases closes
  · cases gap with
    | nil => rw [longer, List.append_nil]
    | cons c gap =>
      rw [remains, passes before c gap longer] at closes
      cases closes

/-! ### Texts that no slash follows an angle bracket in -/

/-- No slash stands behind an angle bracket. -/
def Slashless (text : Text) : Prop := text.IsChain fun c d => ¬(c = '<' ∧ d = '/')

instance : DecidablePred Slashless := fun text =>
  inferInstanceAs (Decidable (text.IsChain fun c d => ¬(c = '<' ∧ d = '/')))

theorem Slashless.append {first second : Text} (front : Slashless first) (back : Slashless second)
    (border : first.getLast? ≠ some '<' ∨ second.head? ≠ some '/') : Slashless (first ++ second) := by
  refine List.isChain_append.2 ⟨front, back, ?_⟩
  rintro c last d head ⟨rfl, rfl⟩
  exact border.elim (· last) (· head)

theorem Slashless.cons {c : Char} {text : Text} (plain : c ≠ '<') (behind : Slashless text) : Slashless (c :: text) :=
  Slashless.append (List.isChain_singleton c) behind (.inl fun last => plain (Option.some.inj last))

theorem slashless_of_not_mem {text : Text} (free : '<' ∉ text) : Slashless text := by
  induction text with
  | nil => exact List.IsChain.nil
  | cons c text ih =>
    simp only [List.mem_cons, not_or] at free
    exact Slashless.cons (Ne.symm free.1) (ih free.2)

theorem slashless_scriptQuoted (text : Text) : Slashless text.scriptQuoted := by
  refine List.isChain_iff_forall_rel_of_append_cons_cons.2 ?_
  rintro c d before after whole ⟨rfl, rfl⟩
  exact Text.replace_ne_slash _ before after whole

theorem slashless_lines {lines : List Text} (each : ∀ line ∈ lines, Slashless line) :
    Slashless (ScriptTexts.lines lines) := by
  unfold ScriptTexts.lines
  induction lines with
  | nil => exact List.IsChain.nil
  | cons line lines ih =>
    cases lines with
    | nil => simpa using each line List.mem_cons_self
    | cons next lines =>
      rw [List.intercalate_cons_cons]
      have later := ih fun other member => each other (List.mem_cons_of_mem line member)
      have broken : Slashless (line ++ ['\n']) :=
        (each line List.mem_cons_self).append (List.isChain_singleton '\n') (.inr (by decide))
      exact broken.append later (.inl (by simp))

theorem passes_of_slashless {text rest : Text} (slashless : Slashless text) (border : rest.head? ≠ some '/') :
    Pattern.Passes closer text rest := by
  rintro before c after rfl
  refine closer_eq_none fun angle => ?_
  subst angle
  cases after with
  | nil => exact border
  | cons d after =>
    intro slash
    exact (List.isChain_append_cons_cons.1 slashless).2.1 ⟨rfl, Option.some.inj slash⟩

end Script

/-! ### The script of a fetch element -/

namespace Fetch

/-- All characters of a name in a script are characters of such names. -/
theorem isScriptNamePart_of_scriptName {text name rest : Text} (found : scriptName text = some (name, rest)) {c : Char}
    (member : c ∈ name) : isScriptNamePart c = true := by
  unfold scriptName at found
  split at found
  · cases found
  · split at found
    · next first tail start =>
      cases found
      rcases List.mem_cons.1 member with rfl | later
      · simp only [isScriptNameStart, Bool.or_eq_true] at start
        simp only [isScriptNamePart, isWord, Char.isAlphanum, Bool.or_eq_true]
        tauto
      · exact List.mem_takeWhile_imp later
    · cases found

theorem isScriptNamePart_of_isScriptName {name : Text} (named : isScriptName name = true) {c : Char} (member : c ∈ name) :
    isScriptNamePart c = true := by
  unfold isScriptName at named
  split at named
  · next word rest found =>
    rw [eq_of_scriptName found, List.isEmpty_iff.1 named, List.append_nil] at member
    exact isScriptNamePart_of_scriptName found member
  · cases named

end Fetch

namespace ScriptTexts

open Script (ClosesOnce Slashless closer slashless_of_not_mem slashless_lines slashless_scriptQuoted)

theorem lines_cons (line next : Text) (later : List Text) :
    lines (line :: next :: later) = line ++ '\n' :: lines (next :: later) := by
  rw [lines, List.intercalate_cons_cons, List.append_assoc]
  rfl

/-- Lines are joined across a place where one of them is cut in two. -/
theorem lines_cut (front back : List Text) (left right : Text) :
    lines (front ++ (left ++ right) :: back) = lines (front ++ [left]) ++ lines (right :: back) := by
  induction front with
  | nil =>
    cases back with
    | nil => simp [lines]
    | cons next back =>
      rw [List.nil_append, List.nil_append, lines_cons, lines_cons, List.append_assoc]
      simp [lines]
  | cons line front ih =>
    cases front with
    | nil =>
      rw [List.nil_append, List.nil_append] at ih
      rw [List.singleton_append, List.singleton_append, lines_cons, lines_cons, ih, List.append_assoc, List.cons_append]
    | cons next front =>
      rw [List.cons_append, List.cons_append] at ih
      rw [List.cons_append, List.cons_append, List.cons_append, List.cons_append, lines_cons, lines_cons, ih,
        List.append_assoc, List.cons_append]

theorem lines_concat {lines : List Text} (some : lines ≠ []) (last : Text) :
    ScriptTexts.lines (lines ++ [last]) = ScriptTexts.lines lines ++ '\n' :: last := by
  obtain ⟨front, line, rfl⟩ := List.eq_nil_or_concat' lines |>.resolve_left some
  have whole := lines_cut front [last] line []
  rw [List.append_nil] at whole
  rw [List.append_assoc, List.singleton_append, whole]
  simp [ScriptTexts.lines]

/-- The bundled fetch script up to the quoted id. -/
def fetchLookup : Text := "<script>\n(function() \x7b\n  var root = document.getElementById("

/-- What stands between the quoted id and the quoted URL. -/
def fetchRequest : Text := lines ((");" : Text) :: fetchHelpers.map String.toList ++ [("  fetch(" : Text)])

/-- The lines from behind the quoted URL on, up to the closing tag. -/
def fetchAnswer (element : FetchElement) : List Text :=
  [", \x7b method: '" ++ element.method ++ "' \x7d)",
    "    .then(response => \x7b",
    "      if (!response.ok) throw new Error('HTTP ' + response.status);",
    "      return response.json();",
    "    \x7d)",
    "    .then(" ++ element.binding ++ " => \x7b",
    "      if (suspense) \x7b",
    "        suspense.remove();",
    "      \x7d",
    "      var scope = \x7b\x7d;",
    "      scope['" ++ element.binding ++ "'] = " ++ element.binding ++ ";",
    "      renderExpressions(root, scope);"] ++
  (if element.loops = [] then [] else [("      processForLoops(root, scope);" : Text)]) ++
  fetchFailure.dropLast.map String.toList

/-- What stands behind the quoted URL. -/
def fetchEnding (element : FetchElement) : Text := lines (fetchAnswer element) ++ "\n</script>"

/-- Two texts are quoted in the script of a fetch element. -/
theorem bundledFetch_eq (element : FetchElement) :
    bundledFetch element = fetchLookup ++ '\'' :: (element.id.scriptQuoted ++ '\'' :: (fetchRequest ++
      '\'' :: (element.url.scriptQuoted ++ '\'' :: fetchEnding element))) := by
  have quoted (front back text : Text) :
      (front ++ ['\'']) ++ text ++ '\'' :: back = front ++ (('\'' :: text ++ ['\'']) ++ back) := by
    simp only [List.append_assoc, List.cons_append, List.nil_append]
  have idLine : "  var root = document.getElementById('" ++ element.id.scriptQuoted ++ "');" =
      "  var root = document.getElementById(" ++ (('\'' :: element.id.scriptQuoted ++ ['\'']) ++ (");" : Text)) :=
    quoted "  var root = document.getElementById(" ");" element.id.scriptQuoted
  have urlLine : "  fetch('" ++ element.url.scriptQuoted ++ "', \x7b method: '" ++ element.method ++ "' \x7d)" =
      "  fetch(" ++ (('\'' :: element.url.scriptQuoted ++ ['\'']) ++
        (", \x7b method: '" ++ element.method ++ "' \x7d)" : Text)) := by
    rw [List.append_assoc _ _ ("' \x7d)" : Text), List.append_assoc _ _ (element.method ++ _), List.append_assoc (", \x7b method: '" : Text)]
    exact quoted "  fetch(" (", \x7b method: '" ++ (element.method ++ ("' \x7d)" : Text))) element.url.scriptQuoted
  have ending : fetchFailure.map String.toList = fetchFailure.dropLast.map String.toList ++ [("</script>" : Text)] := rfl
  have alone (left right : Text) (back : List Text) : lines ((left ++ right) :: back) = left ++ lines (right :: back) := by
    simpa [lines] using lines_cut [] back left right
  have answered : fetchAnswer element ≠ [] := List.cons_ne_nil _ _
  unfold bundledFetch
  dsimp only
  rw [idLine, urlLine, ending]
  calc
    _ = lines ((["<script>", "(function() \x7b"] : List Text) ++ ("  var root = document.getElementById(" ++
          (('\'' :: element.id.scriptQuoted ++ ['\'']) ++ (");" : Text))) :: (fetchHelpers.map String.toList ++
            ("  fetch(" ++ (('\'' :: element.url.scriptQuoted ++ ['\'']) ++ (", \x7b method: '" ++ element.method ++ "' \x7d)"))) ::
              ((fetchAnswer element).tail ++ [("</script>" : Text)]))) := by
      simp only [fetchAnswer, List.append_assoc, List.cons_append, List.nil_append, List.tail_cons]
    _ = fetchLookup ++ (('\'' :: element.id.scriptQuoted ++ ['\'']) ++ (fetchRequest ++
          (('\'' :: element.url.scriptQuoted ++ ['\'']) ++ lines (fetchAnswer element ++ [("</script>" : Text)])))) := by
      rw [lines_cut, alone, ← List.cons_append, lines_cut, alone]
      rfl
    _ = _ := by
      rw [lines_concat answered, fetchEnding]
      simp only [List.append_assoc, List.cons_append, List.nil_append]
      rfl

theorem not_mem_of_isScriptName {name : Text} (named : Fetch.isScriptName name = true) : '<' ∉ name := fun member =>
  absurd (Fetch.isScriptNamePart_of_isScriptName named member) (by decide +kernel)

/-- A literal is looked at character by character. -/
theorem all_of_spelled {text : String} {characters : List Char} {class_ : Char → Bool}
    (spelled : String.ofList characters = text) (every : characters.all class_ = true) : text.toList.all class_ = true := by
  rwa [← spelled, String.toList_ofList]

theorem slashless_of_all {text : Text} (free : text.all (· != '<') = true) : Slashless text :=
  slashless_of_not_mem fun member => bne_iff_ne.1 (List.all_eq_true.1 free _ member) rfl

set_option maxRecDepth 4000 in
theorem all_fetchAnswer {element : FetchElement} (letters : ∀ c ∈ element.method, c.isAlpha = true)
    (named : Fetch.isScriptName element.binding = true) : ∀ line ∈ fetchAnswer element, line.all (· != '<') = true := by
  have free {text : Text} (absent : '<' ∉ text) : text.all (· != '<') = true :=
    List.all_eq_true.2 fun c member => bne_iff_ne.2 fun angle => absent (angle ▸ member)
  have method := free fun member => absurd (letters '<' member) (by decide)
  have binding := free (not_mem_of_isScriptName named)
  have looped : ∀ line ∈ (if element.loops = [] then [] else [("      processForLoops(root, scope);" : Text)]),
      line.all (· != '<') = true := by
    split
    · exact List.forall_mem_nil _
    · exact List.forall_mem_singleton.2 (all_of_spelled rfl (by decide +kernel))
  simp only [fetchAnswer, fetchFailure, List.dropLast_cons_cons, List.dropLast_singleton, List.map_cons, List.map_nil,
    List.forall_mem_append, List.forall_mem_cons]
  simp only [List.all_append, Bool.and_eq_true]
  -- The lines are literals, but for what the element inserts.
  and_intros
  all_goals first
    | exact method
    | exact binding
    | exact looped
    | exact List.forall_mem_nil _
    | exact all_of_spelled rfl (by decide +kernel)

theorem slashless_fetchLookup : Slashless fetchLookup := by
  have tag : fetchLookup = ['<'] ++ fetchLookup.tail := rfl
  rw [tag]
  exact Slashless.append (List.isChain_singleton _) (slashless_of_all (by decide +kernel)) (.inr (by decide +kernel))

set_option maxRecDepth 4000 in
theorem slashless_fetchRequest : Slashless fetchRequest := by
  refine slashless_lines fun line member => slashless_of_all ?_
  revert line
  simp only [fetchHelpers, List.map_cons, List.map_nil, List.forall_mem_append, List.forall_mem_cons]
  and_intros
  all_goals first
    | exact all_of_spelled rfl (by decide +kernel)
    | exact List.forall_mem_nil _

/-- A quoted text between a text that the quote follows and a text that it precedes. -/
theorem slashless_quoted {front back : Text} (text : Text) (before : Slashless front) (behind : Slashless back) :
    Slashless (front ++ '\'' :: (text.scriptQuoted ++ '\'' :: back)) := by
  have closed : Slashless (text.scriptQuoted ++ '\'' :: back) :=
    (slashless_scriptQuoted text).append (behind.cons (by decide)) (.inr (by simp))
  exact before.append (closed.cons (by decide)) (.inr (by simp))

/-- The bundled script of an element up to its closing tag. -/
def fetchBody (element : FetchElement) : Text :=
  fetchLookup ++ '\'' :: (element.id.scriptQuoted ++ '\'' :: (fetchRequest ++
    '\'' :: (element.url.scriptQuoted ++ '\'' :: (lines (fetchAnswer element) ++ ['\n']))))

theorem slashless_fetchBody {element : FetchElement} (letters : ∀ c ∈ element.method, c.isAlpha = true)
    (named : Fetch.isScriptName element.binding = true) : Slashless (fetchBody element) := by
  have answer : Slashless (lines (fetchAnswer element)) :=
    slashless_lines fun line member => slashless_of_all (all_fetchAnswer letters named line member)
  have broken : Slashless (lines (fetchAnswer element) ++ ['\n']) :=
    answer.append (List.isChain_singleton '\n') (.inr (by decide))
  exact slashless_quoted _ slashless_fetchLookup (slashless_quoted _ slashless_fetchRequest broken)

theorem bundledFetch_eq_body (element : FetchElement) : bundledFetch element = fetchBody element ++ "</script>" := by
  rw [bundledFetch_eq, fetchBody, fetchEnding]
  simp only [List.append_assoc, List.cons_append]
  rfl

theorem fetchScript_eq (element : FetchElement) : fetchScript {} element = bundledFetch element := by
  have opened : ∃ inside, fetchBody element = "<script>\n" ++ inside := by
    have front : fetchLookup = "<script>\n" ++ ("(function() \x7b\n  var root = document.getElementById(" : Text) := rfl
    rw [fetchBody, front, List.append_assoc]
    exact ⟨_, rfl⟩
  obtain ⟨inside, opened⟩ := opened
  change Text.trim (bundledFetch element) = bundledFetch element
  rw [bundledFetch_eq_body, opened]
  exact trim_element inside

/-- The script of a fetch element is closed by its closing tag alone; and its two strings, read as script from behind
their opening quotes, end at the quotes of the bundled text and are the id and the URL. -/
theorem fetchScript_closed (element : FetchElement) (letters : ∀ c ∈ element.method, c.isAlpha = true)
    (named : Fetch.isScriptName element.binding = true) :
    ClosesOnce (fetchScript {} element) ∧
      ∃ afterId, fetchScript {} element = fetchLookup ++ '\'' :: (element.id.scriptQuoted ++ '\'' :: afterId) ∧
        afterId = fetchRequest ++ '\'' :: (element.url.scriptQuoted ++ '\'' :: fetchEnding element) ∧
        Script.string? '\'' (element.id.scriptQuoted ++ '\'' :: afterId) = some (element.id.units, afterId) ∧
        Script.string? '\'' (element.url.scriptQuoted ++ '\'' :: fetchEnding element) =
          some (element.url.units, fetchEnding element) := by
  refine ⟨?_, _, (fetchScript_eq element).trans (bundledFetch_eq element), rfl, ?_, ?_⟩
  · rw [fetchScript_eq, bundledFetch_eq_body]
    exact Script.closesOnce_of_passes (Script.passes_of_slashless (slashless_fetchBody letters named) (by decide))
  · exact (Script.reads_scriptQuoted element.id).string? _
  · exact (Script.reads_scriptQuoted element.url).string? _

/-- An id that tries to end its string, and a URL that tries to end the script element. -/
theorem fetchScript_closed_of_quotes :
    (∀ c ∈ ("POST" : Text), c.isAlpha = true) ∧ Fetch.isScriptName "data" = true ∧
      ClosesOnce (fetchScript {} ⟨"a'b\\", "POST", "/x</SCRIPT>\n", "data", []⟩) :=
  ⟨by decide, by decide, (fetchScript_closed ⟨"a'b\\", "POST", "/x</SCRIPT>\n", "data", []⟩ (by decide) (by decide)).1⟩

end ScriptTexts

end ComponentPages
