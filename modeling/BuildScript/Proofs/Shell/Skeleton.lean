import BuildScript.Proofs.Shell.Nesting

/-!
# What a script text shows of its tree

Sequences leave no trace of their own in a text, and commands are seen only as their texts. What is
left of a statement is its skeleton, a row of items.

* `Item`, `Statement.skeleton`: the skeleton of a statement.
* `Item.text`, `Item.lines`: the text of a skeleton, with a line feed before every item.
* `lines_skeleton`: **the text of a statement is the text of its skeleton.**
-/

namespace BuildScript

/-- A part of a script that has a text of its own. -/
inductive Item where
  /-- A line without text. -/
  | blank
  /-- A fold around items. -/
  | fold (name : Bytes) (body : List Item)
  /-- The text of a command, whether it is echoed, what is displayed, and whether it is asserted. -/
  | action (text : Bytes) (echo : Bool) (display? : Option Bytes) (assert : Bool)
  /-- A branch without an alternative. -/
  | when (condition : Condition) (onTrue : List Item)
  /-- A branch whose alternative is a branch itself. -/
  | chain (condition : Condition) (onTrue : List Item) (next : Item)
  /-- A branch with any other alternative. -/
  | either (condition : Condition) (onTrue onFalse : List Item)

/-- Items that stand for nothing are one line without text. -/
def Item.orBlank : List Item → List Item
  | [] => [.blank]
  | items => items

mutual
/-- The skeleton of a statement. That of a branch has one item only, which is the one that goes on when
the branch is the alternative of another one. -/
def Statement.skeleton : Statement → List Item
  | .missing | .noop | .reference _ => [.blank]
  | .sequence statements => Item.orBlank (Statement.skeletonEach statements)
  | .fold name body => [.fold name body.skeleton]
  | .action command options =>
    [.action (Shell.textOf command) (decide (.echo ∈ options)) (options.findSome? CommandOption.text?)
      (decide (.assert ∈ options))]
  | .branch condition onTrue onFalse =>
    match onFalse with
    | .missing | .noop => [.when condition onTrue.skeleton]
    | .branch _ _ _ => [.chain condition onTrue.skeleton (onFalse.skeleton.headD .blank)]
    | _ => [.either condition onTrue.skeleton onFalse.skeleton]
/-- The skeletons of the statements of a sequence that do something, one after the other. -/
def Statement.skeletonEach : List Statement → List Item
  | [] => []
  | .missing :: rest | .noop :: rest => Statement.skeletonEach rest
  | statement :: rest => statement.skeleton ++ Statement.skeletonEach rest
end

namespace Shell

/-- The text of a condition; empty if it has none. -/
def conditionText (condition : Condition) : Bytes := condition.render.toOption.getD []

/-- A flag that may be missing. -/
def flagIf (given : Bool) (flag : Bytes) : Bytes := if given then flag else []

/-- The flag with the text to display. -/
def displayText : Option Bytes → Bytes
  | some text => bytes " --display=" ++ Word.escape text
  | none => []

/-- The flags of an action, each after a blank. -/
def flagText (echo : Bool) (display? : Option Bytes) (assert : Bool) : Bytes :=
  flagIf echo (bytes " --echo") ++ displayText display? ++ flagIf assert (bytes " --assert")

/-- What begins a branch, up to its first indented line. -/
def ifText (condition : Condition) : Bytes := bytes "if " ++ conditionText condition ++ bytes "; then"

end Shell

open Shell

mutual
/-- The text of an item. A line feed stands before each item of a row, so a row can be indented by
shifting it. -/
def Item.text : Item → Bytes
  | .blank => []
  | .fold name body =>
    bytes "travis_fold start " ++ name ++ Item.lines body ++ bytes "\ntravis_fold end " ++ name
  | .action text echo display? assert =>
    bytes "travis_cmd " ++ Word.escape text ++ flagText echo display? assert
  | .when condition onTrue => ifText condition ++ shift (Item.lines onTrue) ++ bytes "\nfi"
  | .chain condition onTrue next =>
    ifText condition ++ shift (Item.lines onTrue) ++ bytes "\nel  " ++ shift next.text
  | .either condition onTrue onFalse =>
    ifText condition ++ shift (Item.lines onTrue) ++ bytes "\nelse" ++ shift (Item.lines onFalse)
      ++ bytes "\nfi"
/-- The texts of items in a row, each after a line feed. -/
def Item.lines : List Item → Bytes
  | [] => []
  | item :: rest => 10 :: (item.text ++ Item.lines rest)
end

namespace Item

theorem lines_append (xs ys : List Item) : lines (xs ++ ys) = lines xs ++ lines ys := by
  induction xs with
  | nil => rw [List.nil_append, lines, List.nil_append]
  | cons x xs ih => rw [List.cons_append, lines, lines, ih, List.cons_append, List.append_assoc]

theorem lines_singleton (x : Item) : lines [x] = 10 :: x.text := by
  rw [lines, lines, List.append_nil]

/-- The lines of a row are indented by shifting them. -/
theorem shift_lines {items : List Item} {text : Bytes} (h : lines items = 10 :: text) :
    shift (lines items) = 10 :: indent text := by
  rw [h, shift_cons, shift_lineEnd, indent_eq]
  rfl

end Item

theorem conditionText_of_render {condition : Condition} {text : Bytes}
    (h : condition.render = .ok text) : conditionText condition = text := by
  rw [conditionText, h]
  rfl

theorem flags_eq_flagText (options : List CommandOption) : flags options =
    flagText (decide (.echo ∈ options)) (options.findSome? CommandOption.text?)
      (decide (.assert ∈ options)) := by
  rw [flags, CommandOption.echoes_eq, CommandOption.display?_eq, CommandOption.asserts_eq]
  rfl

namespace Statement

variable {condition : Condition} {s onTrue onFalse : Statement} {rest : List Statement}

theorem skeleton_when (h : onFalse.isNoop = true) :
    (branch condition onTrue onFalse).skeleton = [.when condition onTrue.skeleton] := by
  rcases eq_of_isNoop h with rfl | rfl <;> rw [skeleton]

theorem skeleton_chain (h : onFalse.isBranch = true) : (branch condition onTrue onFalse).skeleton =
    [.chain condition onTrue.skeleton (onFalse.skeleton.headD .blank)] := by
  cases onFalse with
  | branch _ _ _ => rw [skeleton]
  | _ => cases h

theorem skeleton_either (hnoop : ¬ onFalse.isNoop = true) (hbranch : ¬ onFalse.isBranch = true) :
    (branch condition onTrue onFalse).skeleton = [.either condition onTrue.skeleton onFalse.skeleton] := by
  rw [skeleton]
  · rintro rfl
    exact hnoop rfl
  · rintro rfl
    exact hnoop rfl
  · rintro _ _ _ rfl
    exact hbranch rfl

/-- The skeleton of a branch is one item. -/
theorem skeleton_branch (h : s.isBranch = true) : s.skeleton = [s.skeleton.headD .blank] := by
  cases s with
  | branch condition onTrue onFalse =>
    by_cases hnoop : onFalse.isNoop = true
    · rw [skeleton_when hnoop]
      rfl
    · by_cases hbranch : onFalse.isBranch = true
      · rw [skeleton_chain hbranch]
        rfl
      · rw [skeleton_either hnoop hbranch]
        rfl
  | _ => cases h

theorem skeletonEach_noop (h : s.isNoop = true) : skeletonEach (s :: rest) = skeletonEach rest := by
  rcases eq_of_isNoop h with rfl | rfl <;> rw [skeletonEach]

theorem skeletonEach_cons (h : ¬ s.isNoop = true) :
    skeletonEach (s :: rest) = s.skeleton ++ skeletonEach rest := by
  rw [skeletonEach]
  · rintro rfl
    exact h rfl
  · rintro rfl
    exact h rfl

end Statement

/-- The text of parts in a row, with a line feed before each of them. -/
theorem join_lines {parts : List Bytes} (h : parts ≠ []) :
    10 :: Bytes.join [10] parts = parts.flatMap (10 :: ·) := by
  cases parts with
  | nil => exact absurd rfl h
  | cons part rest =>
    rw [Bytes.join_cons, List.flatMap_cons]
    rfl

mutual
/-- **The text of a statement is the text of its skeleton.** -/
theorem lines_skeleton : ∀ (s : Statement) {text : Bytes}, s.render = .ok text →
    Item.lines s.skeleton = 10 :: text := by
  intro s text h
  match s with
  | .missing =>
    cases h
    rw [Statement.skeleton, Item.lines_singleton, Item.text]
  | .noop =>
    cases h
    rw [Statement.skeleton, Item.lines_singleton, Item.text]
  | .reference _ => cases h
  | .action command options =>
    obtain ⟨t, ht, hline⟩ := bind_ok h
    have htext : textOf command = t := by rw [textOf, ht]; rfl
    rw [← Except.ok.inj hline, flags_eq_flagText, Statement.skeleton, Item.lines_singleton, Item.text,
      htext]
    rfl
  | .sequence statements =>
    rw [Statement.render] at h
    obtain ⟨parts, hparts, hjoin⟩ := bind_ok h
    have hlines := lines_skeletonEach statements hparts
    rw [← Except.ok.inj hjoin, Statement.skeleton]
    cases hitems : Statement.skeletonEach statements with
    | nil =>
      -- nothing in the sequence has a text, so there are no parts
      rw [hitems, Item.lines] at hlines
      have hnone : parts = [] := by
        cases parts with
        | nil => rfl
        | cons part rest => cases hlines
      rw [hnone, Item.orBlank, Item.lines_singleton, Item.text]
      rfl
    | cons item rest =>
      rw [hitems] at hlines
      have hsome : parts ≠ [] := by
        rintro rfl
        rw [Item.lines] at hlines
        cases hlines
      exact hlines.trans (join_lines hsome).symm
  | .fold name body =>
    rw [Statement.render] at h
    split at h
    · cases h
    · obtain ⟨t, ht, htext⟩ := bind_ok h
      have hbody := lines_skeleton body ht
      rw [← Except.ok.inj htext, Statement.skeleton, Item.lines_singleton, Item.text, hbody]
      simp only [foldText, List.append_assoc]
      rfl
  | .branch condition onTrue onFalse =>
    rw [Statement.render] at h
    obtain ⟨c, hc, h⟩ := bind_ok h
    obtain ⟨t, ht, h⟩ := bind_ok h
    have hcondition : conditionText condition = c := conditionText_of_render hc
    have hyes := Item.shift_lines (lines_skeleton onTrue ht)
    split at h
    · next hnoop =>
      rw [Statement.skeleton_when hnoop, ← Except.ok.inj h, Item.lines_singleton, Item.text, ifText,
        hcondition, hyes]
      simp only [whenText, List.append_assoc]
      rfl
    · next hnoop =>
      obtain ⟨f, hf, h⟩ := bind_ok h
      have hno := lines_skeleton onFalse hf
      rw [← Except.ok.inj h]
      split
      · next hbranch =>
        rw [Statement.skeleton_branch hbranch, Item.lines_singleton] at hno
        rw [Statement.skeleton_chain hbranch, Item.lines_singleton, Item.text, ifText, hcondition, hyes,
          (List.cons.inj hno).2]
        simp only [chainText, indent_eq f, List.append_assoc]
        rfl
      · next hbranch =>
        rw [Statement.skeleton_either hnoop hbranch, Item.lines_singleton, Item.text, ifText, hcondition,
          hyes, Item.shift_lines hno]
        simp only [eitherText, List.append_assoc]
        rfl
/-- The same for the statements of a sequence. -/
theorem lines_skeletonEach : ∀ (statements : List Statement) {parts : List Bytes},
    Statement.renderEach statements = .ok parts →
    Item.lines (Statement.skeletonEach statements) = parts.flatMap (10 :: ·) := by
  intro statements parts h
  match statements with
  | [] =>
    cases h
    rw [Statement.skeletonEach, Item.lines]
    rfl
  | statement :: rest =>
    rw [Statement.renderEach] at h
    split at h
    · next hnoop =>
      rw [Statement.skeletonEach_noop hnoop]
      exact lines_skeletonEach rest h
    · next hnoop =>
      obtain ⟨text, htext, h⟩ := bind_ok h
      obtain ⟨texts, htexts, h⟩ := bind_ok h
      have hfirst := lines_skeleton statement htext
      have hrest := lines_skeletonEach rest htexts
      rw [Statement.skeletonEach_cons hnoop, ← Except.ok.inj h, Item.lines_append, hfirst, hrest,
        List.flatMap_cons]
end

end BuildScript
