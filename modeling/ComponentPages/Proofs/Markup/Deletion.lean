import ComponentPages.Proofs.Termination
import ComponentPages.Proofs.Outcome
import ComponentPages.Proofs.Markup.Document

/-!
Settling only takes text away. What is read as a conditional is spelled like one, and so the branch that it chooses and
the text behind it are left of what was read, in this order. A text is settled when a search for a conditional fails.
-/
namespace ComponentPages

namespace Conditional

theorem mark_of_splitCondition? {nesting : Nesting} {text before after : Text} {mark : Char}
    (found : splitCondition? nesting text = some (before, mark, after)) : mark = '?' ∨ mark = '\x7d' := by
  induction text generalizing nesting before with
  | nil => cases found
  | cons c rest ih =>
    rw [splitCondition?] at found
    split at found
    · next stops =>
      obtain ⟨-, rfl, -⟩ : [] = before ∧ c = mark ∧ rest = after := by simpa using found
      simpa using (Bool.and_eq_true_iff.1 stops).2
    · obtain ⟨⟨first, second, third⟩, later, same⟩ := Option.map_eq_some_iff.1 found
      obtain ⟨-, rfl, rfl⟩ : c :: first = before ∧ second = mark ∧ third = after := by simpa using same
      exact ih later

theorem eq_of_afterJoint_gap {joint : Joint} {snippet text rest : Text}
    (found : afterJoint joint snippet text = .ok rest) : ∃ gap, IsSpace gap ∧ text = gap ++ joint.token :: rest := by
  obtain ⟨gap, blank, whole⟩ := Text.exists_eq_trimLeft text
  rw [eq_of_afterJoint found] at whole
  exact ⟨gap, blank, whole⟩

theorem eq_of_readBranch {truthy : Bool} {snippet text inside after : Text}
    (found : readBranch truthy snippet text = .ok (inside, after)) : text = inside ++ ')' :: after := by
  unfold readBranch at found
  split at found
  · next located =>
    cases found
    exact eq_of_branch? located
  · cases found

/-- What is read as a conditional is one as it is written. -/
theorem eq_write_of_read {offset : Nat} {text rest : Text} {conditional : Conditional}
    (reads : read offset text = .ok (conditional, rest)) : ∃ condition gaps, gaps.AreBlank ∧
      conditional.condition = Text.trim condition ∧
      text = write condition gaps conditional.truthy conditional.falsy rest := by
  unfold read at reads
  split at reads
  · next inside =>
    split at reads
    · cases reads
    · next condition mark afterMark located =>
      by_cases closes : mark = '\x7d'
      · rw [if_pos closes] at reads
        cases reads
      · rw [if_neg closes] at reads
        obtain rfl : mark = '?' := (mark_of_splitCondition? located).resolve_right closes
        obtain ⟨afterOpening, opened, reads⟩ := bind_eq_ok_iff.1 reads
        obtain ⟨⟨truthy, afterTruthy⟩, taken, reads⟩ := bind_eq_ok_iff.1 reads
        obtain ⟨afterColon, parted, reads⟩ := bind_eq_ok_iff.1 reads
        obtain ⟨afterSecond, openedAgain, reads⟩ := bind_eq_ok_iff.1 reads
        obtain ⟨⟨falsy, afterFalsy⟩, left, reads⟩ := bind_eq_ok_iff.1 reads
        obtain ⟨behind, closed, reads⟩ := bind_eq_ok_iff.1 reads
        cases reads
        obtain ⟨gap, blank, opening⟩ := eq_of_afterJoint_gap opened
        obtain ⟨colonGap, colonBlank, colon⟩ := eq_of_afterJoint_gap parted
        obtain ⟨secondGap, secondBlank, second⟩ := eq_of_afterJoint_gap openedAgain
        obtain ⟨closingGap, closingBlank, closing⟩ := eq_of_afterJoint_gap closed
        refine ⟨condition, ⟨gap, colonGap, secondGap, closingGap⟩, ⟨blank, colonBlank, secondBlank, closingBlank⟩, rfl, ?_⟩
        rw [eq_of_splitCondition? located, opening, eq_of_readBranch taken, colon, second, eq_of_readBranch left, closing]
        rfl
  · cases reads

theorem branch_of_choose {conditional : Conditional} {scope : Scope} {branch : Text}
    (chosen : conditional.choose scope = .ok branch) : branch = conditional.truthy ∨ branch = conditional.falsy := by
  obtain ⟨value, -, chosen⟩ := bind_eq_ok_iff.1 chosen
  split at chosen
  · exact .inl (Except.ok.inj chosen).symm
  · exact .inr (Except.ok.inj chosen).symm
  · cases chosen

/-- The branch that a conditional chooses is left of what was read, and the text behind the conditional after it. -/
theorem sublist_of_choose {offset : Nat} {text rest branch : Text} {conditional : Conditional} {scope : Scope}
    (reads : read offset text = .ok (conditional, rest)) (chosen : conditional.choose scope = .ok branch) :
    (branch ++ rest).Sublist text := by
  obtain ⟨condition, gaps, -, -, rfl⟩ := eq_write_of_read reads
  have left (front inside back : Text) : (inside ++ rest).Sublist (front ++ (inside ++ (back ++ rest))) :=
    ((List.sublist_append_right back rest).append_left inside).trans (List.sublist_append_right front _)
  rcases branch_of_choose chosen with rfl | rfl
  · have shape := left ('\x7b' :: condition ++ '?' :: gaps.truthy ++ ['(']) conditional.truthy
      (')' :: gaps.colon ++ ':' :: gaps.falsy ++ '(' :: conditional.falsy ++ ')' :: gaps.closing ++ ['\x7d'])
    simpa [write] using shape
  · have shape := left ('\x7b' :: condition ++ '?' :: gaps.truthy ++ '(' :: conditional.truthy ++ ')' :: gaps.colon ++
      ':' :: gaps.falsy ++ ['(']) conditional.falsy (')' :: gaps.closing ++ ['\x7d'])
    simpa [write] using shape

theorem sublist_of_round {before found rest branch replacement : Text} {conditional : Conditional} {scope : Scope}
    (reads : read before.length found = .ok (conditional, rest)) (chosen : conditional.choose scope = .ok branch)
    (left : replacement.Sublist branch) : (before ++ replacement ++ rest).Sublist (before ++ found) := by
  rw [List.append_assoc]
  exact ((left.append_right rest).trans (sublist_of_choose reads chosen)).append_left before

section Settled

variable {html result : Text} {scope : Scope}

/-- A text that is settled has no conditional, or one round has put the settled branch of its first conditional in place
and what that made is settled. -/
theorem round_of_settle (settled : settle html scope = .ok result) :
    seek? html = none ∧ result = html ∨
      ∃ before found conditional rest branch replacement, html = before ++ found ∧
        read before.length found = .ok (conditional, rest) ∧ conditional.choose scope = .ok branch ∧
        settle branch scope = .ok replacement ∧ settle (before ++ replacement ++ rest) scope = .ok result := by
  cases sought : seek? html with
  | none =>
    rw [settle_of_none sought] at settled
    exact .inl ⟨rfl, (Except.ok.inj settled).symm⟩
  | some parts =>
    obtain ⟨before, found⟩ := parts
    rw [settle_of_some sought] at settled
    obtain ⟨⟨conditional, rest⟩, reads, settled⟩ := bind_eq_ok_iff.1 settled
    obtain ⟨branch, chosen, settled⟩ := bind_eq_ok_iff.1 settled
    obtain ⟨replacement, inner, settled⟩ := bind_eq_ok_iff.1 settled
    exact .inr ⟨before, found, conditional, rest, branch, replacement, eq_of_seekFrom? sought, reads, chosen, inner, settled⟩

theorem sublist_of_settle (settled : settle html scope = .ok result) : result.Sublist html := by
  induction size : html.length using Nat.strong_induction_on generalizing html result with
  | _ size ih =>
    subst size
    rcases round_of_settle settled with ⟨-, rfl⟩ |
      ⟨before, found, conditional, rest, branch, replacement, rfl, reads, chosen, inner, outer⟩
    · exact List.Sublist.refl result
    · obtain ⟨branchShorter, shorter⟩ := length_of_round reads chosen (length_of_settle inner)
      exact (ih _ shorter outer rfl).trans (sublist_of_round reads chosen (ih _ branchShorter inner rfl))

theorem seek?_of_settle (settled : settle html scope = .ok result) : seek? result = none := by
  induction size : html.length using Nat.strong_induction_on generalizing html with
  | _ size ih =>
    subst size
    rcases round_of_settle settled with ⟨absent, rfl⟩ |
      ⟨before, found, conditional, rest, branch, replacement, rfl, reads, chosen, inner, outer⟩
    · exact absent
    · exact ih _ (length_of_round reads chosen (length_of_settle inner)).2 outer rfl

end Settled

/-- Settling ends, within as many rounds in a row as the text has characters and one more. What it comes back with is
the text with characters taken away, it has no conditional, and in any scope settling leaves it as it is. -/
theorem settle_deletes (html : Text) (scope : Scope) :
    (∀ depth page, html.length < depth → (unfold depth html scope).run page = some (settle html scope, page)) ∧
      ∀ result, settle html scope = .ok result →
        start? result = none ∧ result.Sublist html ∧ ∀ other, settle result other = .ok result := by
  refine ⟨fun depth page deep => run_unfold deep scope page, fun result settled => ?_⟩
  have absent := seek?_of_settle settled
  refine ⟨?_, sublist_of_settle settled, settle_of_none absent⟩
  rw [start?, absent]
  rfl

/-- A branch whose brace makes a conditional of the text behind it. -/
theorem settle_deletes_opened :
    settle "\x7bt ? (\x7b) : (x)\x7d t ? (a) : (b)\x7d" [("t".toList, .boolean true)] = .ok "a" ∧
      (unfold 31 "\x7bt ? (\x7b) : (x)\x7d t ? (a) : (b)\x7d" [("t".toList, .boolean true)]).run {} = some (.ok "a", {}) ∧
      start? "a" = none ∧ ("a".toList).Sublist ("\x7bt ? (\x7b) : (x)\x7d t ? (a) : (b)\x7d".toList) ∧
      settle "a" [] = .ok "a" := by
  have settled : settle "\x7bt ? (\x7b) : (x)\x7d t ? (a) : (b)\x7d" [("t".toList, .boolean true)] = .ok "a" :=
    eq_ok_of_toOption (by decide +kernel)
  obtain ⟨unfolds, left⟩ := settle_deletes "\x7bt ? (\x7b) : (x)\x7d t ? (a) : (b)\x7d" [("t".toList, .boolean true)]
  obtain ⟨absent, sub, again⟩ := left "a" settled
  refine ⟨settled, ?_, absent, sub, again []⟩
  rw [unfolds 31 {} (by decide), settled]

end Conditional

end ComponentPages
