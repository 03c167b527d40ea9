import BuildScript.Proofs.Shell.Boundaries

/-!
# A script text can be read in one way only

From the left, each item of a text shows what it is and where it ends: an action at the end of its
flags, a branch at the line that closes it, which is the first that is not indented, and a fold at its
end mark.

* `Item.Legible`: items that were written from a statement without commands in its conditions.
* `text_append_inj`, `lines_append_inj`: **items, and rows of them, are read in one way.**
* `render_determines_skeleton`: so a text shows the skeleton of its statement and nothing else.
-/

namespace BuildScript

open Shell

/-! ## Items -/

mutual
/-- The conditions of an item run no command and have a text, and its fold names stand on one line. -/
def Item.Legible : Item → Prop
  | .blank => True
  | .fold name body => 10 ∉ name ∧ Item.LegibleAll body
  | .action _ _ _ _ => True
  | .when condition onTrue =>
    Written condition (conditionText condition) ∧ Item.LegibleAll onTrue
  | .chain condition onTrue next =>
    Written condition (conditionText condition) ∧ Item.LegibleAll onTrue ∧ next.Legible
  | .either condition onTrue onFalse =>
    Written condition (conditionText condition) ∧ Item.LegibleAll onTrue ∧ Item.LegibleAll onFalse
/-- The same for items in a row. -/
def Item.LegibleAll : List Item → Prop
  | [] => True
  | item :: rest => item.Legible ∧ Item.LegibleAll rest
end

namespace Item

/-- What the first bytes of an item show of it. -/
inductive Lead where
  | blank
  | fold
  | action
  | branch

/-- How an item begins. -/
def lead : Item → Lead
  | blank => .blank
  | fold _ _ => .fold
  | action _ _ _ _ => .action
  | when _ _ | chain _ _ _ | either _ _ _ => .branch

/-- How the item at the start of a text begins. -/
def leadOf (text : Bytes) : Lead :=
  if Bytes.startsWith (bytes "travis_fold start ") text then .fold
  else if Bytes.startsWith (bytes "travis_cmd ") text then .action
  else if Bytes.startsWith (bytes "if ") text then .branch
  else .blank

theorem leadOf_text (x : Item) {r : Bytes} (hr : EndsLine r) : leadOf (x.text ++ r) = x.lead := by
  cases x with
  | blank => obtain rfl | ⟨rest, rfl⟩ := hr.cases <;> rw [text] <;> rfl
  | _ => rw [text]; rfl

theorem lead_eq {x y : Item} {r r' : Bytes} (hr : EndsLine r) (hr' : EndsLine r')
    (h : x.text ++ r = y.text ++ r') : x.lead = y.lead := by
  rw [← leadOf_text x hr, h, leadOf_text y hr']

/-- What can follow a row of items: nothing, or the end mark of a fold. -/
def Closes (r : Bytes) : Prop := r = [] ∨ ∃ rest, r = bytes "\ntravis_fold end " ++ rest

/-- No line of an item is indented. -/
theorem stops_lines (items : List Item) {r : Bytes} (hr : Closes r) : Stops (lines items ++ r) := by
  have hclosed : Stops r := by
    rcases hr with rfl | ⟨rest, rfl⟩
    · trivial
    · exact ⟨rfl, fun h => by cases h⟩
  induction items with
  | nil =>
    rw [lines]
    exact hclosed
  | cons item rest ih =>
    rw [lines, List.cons_append, List.append_assoc]
    refine ⟨rfl, ?_⟩
    cases item with
    | blank =>
      rw [text, List.nil_append]
      obtain hnil | ⟨tail, htail⟩ := ih.endsLine.cases
      · rw [hnil]
        decide
      · rw [htail]
        exact fun h => by cases h
    | _ =>
      rw [text]
      exact fun h => by cases h

/-- The end mark of a fold is no item. -/
theorem text_ne_endMark (x : Item) {r : Bytes} (hr : EndsLine r) (rest : Bytes) :
    x.text ++ r ≠ bytes "travis_fold end " ++ rest := by
  intro h
  have hlead : x.lead = .blank := by
    rw [← leadOf_text x hr, h]
    rfl
  cases x with
  | blank =>
    rw [text, List.nil_append] at h
    rw [h] at hr
    exact absurd hr (show (116 : UInt8) ≠ 10 by decide)
  | _ => cases hlead

/-- Where a row of items ends, no item begins. -/
theorem closes_ne_lines {r r' : Bytes} (hr : Closes r) (x : Item) (xs : List Item) (hr' : Closes r') :
    r ≠ lines (x :: xs) ++ r' := by
  rw [lines, List.cons_append, List.append_assoc]
  rcases hr with rfl | ⟨rest, rfl⟩
  · exact fun h => by cases h
  · intro h
    exact text_ne_endMark x (stops_lines xs hr').endsLine rest (List.cons.inj h).2.symm

/-- A name on one line ends at the line feed after it. -/
theorem name_append_inj {a b x y : Bytes} (ha : 10 ∉ a) (hb : 10 ∉ b)
    (h : a ++ 10 :: x = b ++ 10 :: y) : a = b ∧ x = y := by
  rcases List.append_eq_append_iff.1 h with ⟨d, hd, hrest⟩ | ⟨d, hd, hrest⟩
  · cases d with
    | nil => exact ⟨by simpa using hd.symm, (List.cons.inj hrest).2⟩
    | cons c d =>
      have hc : 10 = c := (List.cons.inj hrest).1
      exact absurd (by rw [hd, ← hc]; simp) hb
  · cases d with
    | nil => exact ⟨by simpa using hd, (List.cons.inj hrest).2.symm⟩
    | cons c d =>
      have hc : 10 = c := (List.cons.inj hrest).1
      exact absurd (by rw [hd, ← hc]; simp) ha

/-- Two folds that are read alike have one name, and agree from their first lines on. -/
theorem fold_inj {name name' : Bytes} {body body' : List Item} {r r' : Bytes} (hname : 10 ∉ name)
    (hname' : 10 ∉ name') (h : (fold name body).text ++ r = (fold name' body').text ++ r') :
    name = name' ∧ lines body ++ (bytes "\ntravis_fold end " ++ (name ++ r)) =
      lines body' ++ (bytes "\ntravis_fold end " ++ (name' ++ r')) := by
  simp only [text, List.append_assoc, List.append_cancel_left_eq] at h
  -- the name ends at the line feed of the first item, or of the end mark
  have hbegin : ∀ (items : List Item) (rest : Bytes), ∃ tail,
      lines items ++ (bytes "\ntravis_fold end " ++ rest) = 10 :: tail := by
    intro items rest
    cases items with
    | nil => exact ⟨_, by rw [lines]; rfl⟩
    | cons item items => exact ⟨_, by rw [lines]; rfl⟩
  obtain ⟨tail, htail⟩ := hbegin body (name ++ r)
  obtain ⟨tail', htail'⟩ := hbegin body' (name' ++ r')
  rw [htail, htail'] at h
  obtain ⟨heq, htails⟩ := name_append_inj hname hname' h
  refine ⟨heq, ?_⟩
  rw [htail, htail', htails]

/-! ### Branches -/

/-- The condition of a branch. -/
def guard : Item → Condition
  | when condition _ | chain condition _ _ | either condition _ _ => condition
  | _ => .missing

/-- The items of a branch that are indented first. -/
def body : Item → List Item
  | when _ onTrue | chain _ onTrue _ | either _ onTrue _ => onTrue
  | _ => []

/-- What comes after them, up to what follows the branch. -/
def ending (r : Bytes) : Item → Bytes
  | chain _ _ next => bytes "\nel  " ++ (shift next.text ++ r)
  | either _ _ onFalse => bytes "\nelse" ++ (shift (lines onFalse) ++ (bytes "\nfi" ++ r))
  | _ => bytes "\nfi" ++ r

theorem text_branch {x : Item} (h : x.lead = .branch) (r : Bytes) :
    x.text ++ r = ifText x.guard ++ (shift (lines x.body) ++ x.ending r) := by
  cases x with
  | when c t => simp only [text, guard, body, ending, List.append_assoc]
  | chain c t n => simp only [text, guard, body, ending, List.append_assoc]
  | either c t f => simp only [text, guard, body, ending, List.append_assoc]
  | _ => cases h

/-- The line that ends the first row of a branch is not indented. -/
theorem stops_ending (x : Item) (r : Bytes) : Stops (x.ending r) := by
  cases x <;> exact ⟨rfl, fun h => by cases h⟩

theorem stops_fi (r : Bytes) : Stops (bytes "\nfi" ++ r) := ⟨rfl, fun h => by cases h⟩

theorem written_guard {x : Item} (hx : x.Legible) (h : x.lead = .branch) :
    Written x.guard (conditionText x.guard) := by
  cases x with
  | when c t =>
    rw [Legible] at hx
    exact hx.1
  | chain c t n =>
    rw [Legible] at hx
    exact hx.1
  | either c t f =>
    rw [Legible] at hx
    exact hx.1
  | _ => cases h

/-- Two branches that are read alike agree up to the end of their first rows. -/
theorem branch_inj {x y : Item} {r r' : Bytes} (hx : x.Legible) (hy : y.Legible)
    (hxlead : x.lead = .branch) (hylead : y.lead = .branch) (h : x.text ++ r = y.text ++ r') :
    x.guard = y.guard ∧ lines x.body = lines y.body ∧ x.ending r = y.ending r' := by
  rw [text_branch hxlead, text_branch hylead] at h
  simp only [ifText, List.append_assoc, List.append_cancel_left_eq] at h
  obtain ⟨hguard, h₁⟩ := written_append_inj (written_guard hx hxlead) (written_guard hy hylead) h
  obtain ⟨hbody, hending⟩ := shift_append_inj (stops_ending x r) (stops_ending y r')
    (List.append_cancel_left h₁)
  exact ⟨hguard, hbody, hending⟩

mutual
/-- **An item is read in one way**, whatever follows it, as long as that is not indented. -/
theorem text_append_inj : ∀ (x y : Item) {r r' : Bytes}, x.Legible → y.Legible → Stops r → Stops r' →
    x.text ++ r = y.text ++ r' → x = y ∧ r = r' := by
  intro x y r r' hx hy hr hr' h
  have hlead := lead_eq hr.endsLine hr'.endsLine h
  match x with
  | .blank =>
    cases y with
    | blank =>
      rw [text] at h
      exact ⟨rfl, h⟩
    | _ => cases hlead
  | .action t e d a =>
    cases y with
    | action t' e' d' a' =>
      simp only [text, List.append_assoc, List.append_cancel_left_eq] at h
      obtain ⟨ht, h₁⟩ := escape_append_inj (flagText_endsWord hr.endsLine)
        (flagText_endsWord hr'.endsLine) h
      obtain ⟨he, hd, ha, hrest⟩ := flagText_append_inj hr.endsLine hr'.endsLine h₁
      exact ⟨by rw [ht, he, hd, ha], hrest⟩
    | _ => cases hlead
  | .fold name body =>
    cases y with
    | fold name' body' =>
      rw [Legible] at hx hy
      obtain ⟨hname, hlines⟩ := fold_inj hx.1 hy.1 h
      obtain ⟨hbody, h₁⟩ := lines_append_inj body body' hx.2 hy.2 (Or.inr ⟨_, rfl⟩)
        (Or.inr ⟨_, rfl⟩) hlines
      rw [hname] at h₁
      exact ⟨by rw [hname, hbody], List.append_cancel_left (List.append_cancel_left h₁)⟩
    | _ => cases hlead
  | .when c t =>
    have hbranch := branch_inj hx hy rfl hlead.symm h
    cases y with
    | when c' t' =>
      rw [Legible] at hx hy
      obtain ⟨hc, hlines, hafter⟩ := hbranch
      obtain ⟨ht, -⟩ := lines_append_inj t t' hx.2 hy.2 (Or.inl rfl) (Or.inl rfl)
        (congrArg (· ++ []) hlines)
      exact ⟨congrArg₂ when hc ht, List.append_cancel_left hafter⟩
    | chain c' t' n' => exact absurd hbranch.2.2 (append_ne (by decide) _ _)
    | either c' t' f' => exact absurd hbranch.2.2 (append_ne (by decide) _ _)
    | _ => cases hlead
  | .chain c t n =>
    have hbranch := branch_inj hx hy rfl hlead.symm h
    cases y with
    | chain c' t' n' =>
      rw [Legible] at hx hy
      obtain ⟨hc, hlines, hafter⟩ := hbranch
      obtain ⟨rfl, -⟩ := lines_append_inj t t' hx.2.1 hy.2.1 (Or.inl rfl) (Or.inl rfl)
        (congrArg (· ++ []) hlines)
      -- the branch that goes on is indented as a whole, so it ends where the indentation does
      obtain ⟨htext, hrest⟩ := shift_append_inj hr hr' (List.append_cancel_left hafter)
      have hstops : Stops [] := trivial
      obtain ⟨rfl, -⟩ := text_append_inj n n' hx.2.2 hy.2.2 hstops hstops
        (congrArg (· ++ []) htext)
      exact ⟨congrArg (chain · t n) hc, hrest⟩
    | when c' t' => exact absurd hbranch.2.2 (append_ne (by decide) _ _)
    | either c' t' f' => exact absurd hbranch.2.2 (append_ne (by decide) _ _)
    | _ => cases hlead
  | .either c t f =>
    have hbranch := branch_inj hx hy rfl hlead.symm h
    cases y with
    | either c' t' f' =>
      rw [Legible] at hx hy
      obtain ⟨hc, hlines, hafter⟩ := hbranch
      obtain ⟨rfl, -⟩ := lines_append_inj t t' hx.2.1 hy.2.1 (Or.inl rfl) (Or.inl rfl)
        (congrArg (· ++ []) hlines)
      obtain ⟨hlines', hend⟩ := shift_append_inj (stops_fi r) (stops_fi r')
        (List.append_cancel_left hafter)
      obtain ⟨rfl, -⟩ := lines_append_inj f f' hx.2.2 hy.2.2 (Or.inl rfl) (Or.inl rfl)
        (congrArg (· ++ []) hlines')
      exact ⟨congrArg (either · t f) hc, List.append_cancel_left hend⟩
    | when c' t' => exact absurd hbranch.2.2 (append_ne (by decide) _ _)
    | chain c' t' n' => exact absurd hbranch.2.2 (append_ne (by decide) _ _)
    | _ => cases hlead
/-- The same for items in a row. -/
theorem lines_append_inj : ∀ (xs ys : List Item) {r r' : Bytes}, LegibleAll xs → LegibleAll ys →
    Closes r → Closes r' → lines xs ++ r = lines ys ++ r' → xs = ys ∧ r = r' := by
  intro xs ys r r' hxs hys hr hr' h
  match xs, ys with
  | [], [] =>
    rw [lines] at h
    exact ⟨rfl, h⟩
  | [], y :: ys =>
    rw [lines, List.nil_append] at h
    exact absurd h (closes_ne_lines hr y ys hr')
  | x :: xs, [] =>
    rw [lines.eq_1, List.nil_append] at h
    exact absurd h.symm (closes_ne_lines hr' x xs hr)
  | x :: xs, y :: ys =>
    rw [lines, lines, List.cons_append, List.cons_append, List.cons.injEq, List.append_assoc,
      List.append_assoc] at h
    rw [LegibleAll] at hxs hys
    obtain ⟨hxy, hafter⟩ := text_append_inj x y hxs.1 hys.1 (stops_lines xs hr) (stops_lines ys hr') h.2
    obtain ⟨hrows, hrest⟩ := lines_append_inj xs ys hxs.2 hys.2 hr hr' hafter
    exact ⟨by rw [hxy, hrows], hrest⟩
end

theorem legibleAll_append {xs ys : List Item} (hx : LegibleAll xs) (hy : LegibleAll ys) :
    LegibleAll (xs ++ ys) := by
  induction xs with
  | nil => exact hy
  | cons x xs ih =>
    rw [LegibleAll] at hx
    rw [List.cons_append, LegibleAll]
    exact ⟨hx.1, ih hx.2⟩

theorem legibleAll_singleton {x : Item} (h : x.Legible) : LegibleAll [x] := by
  rw [LegibleAll, LegibleAll]
  exact ⟨h, trivial⟩

theorem legible_blank : Legible .blank := by
  rw [Legible]
  trivial

theorem legibleAll_orBlank {xs : List Item} (h : LegibleAll xs) : LegibleAll (orBlank xs) := by
  cases xs with
  | nil => exact legibleAll_singleton legible_blank
  | cons x xs => exact h

end Item

/-! ## Statements -/

open Item

/-- A fold name that can be written stands on one line. -/
theorem not_mem_of_check {name : Bytes} (h : FoldName.check name = .ok ()) : 10 ∉ name := by
  intro hmem
  have hany : name.any FoldName.isLineEnd = true := List.any_eq_true.2 ⟨10, hmem, by decide⟩
  unfold FoldName.check at h
  split at h
  · cases h
  · cases h

mutual
/-- The skeleton of a statement that has a text and runs no command in its conditions can be read. -/
theorem legible_skeleton : ∀ (s : Statement) {text : Bytes}, s.conditionsRunNothing = true →
    s.render = .ok text → LegibleAll s.skeleton := by
  intro s text hs h
  rw [Statement.conditionsRunNothing] at hs
  match s with
  | .missing | .noop =>
    rw [Statement.skeleton]
    exact legibleAll_singleton legible_blank
  | .reference _ => cases h
  | .action command options =>
    rw [Statement.skeleton]
    refine legibleAll_singleton ?_
    rw [Legible]
    trivial
  | .sequence statements =>
    rw [Statement.everywhere, Bool.and_eq_true] at hs
    rw [Statement.render] at h
    obtain ⟨parts, hparts, -⟩ := bind_ok h
    rw [Statement.skeleton]
    exact legibleAll_orBlank (legible_skeletonEach statements hs.2 hparts)
  | .fold name body =>
    rw [Statement.everywhere, Bool.and_eq_true] at hs
    rw [Statement.render] at h
    split at h
    · cases h
    · next hcheck =>
      obtain ⟨t, ht, -⟩ := bind_ok h
      rw [Statement.skeleton]
      refine legibleAll_singleton ?_
      rw [Legible]
      exact ⟨not_mem_of_check hcheck, legible_skeleton body hs.2 ht⟩
  | .branch condition onTrue onFalse =>
    rw [Statement.everywhere, Bool.and_eq_true, Bool.and_eq_true] at hs
    obtain ⟨⟨hcond, htrue⟩, hfalse⟩ := hs
    rw [Statement.render] at h
    obtain ⟨c, hc, h⟩ := bind_ok h
    obtain ⟨t, ht, h⟩ := bind_ok h
    have hwritten : Written condition (conditionText condition) := by
      rw [conditionText_of_render hc]
      exact written_of_render hcond hc
    have hyes := legible_skeleton onTrue htrue ht
    split at h
    · next hnoop =>
      rw [Statement.skeleton_when hnoop]
      refine legibleAll_singleton ?_
      rw [Legible]
      exact ⟨hwritten, hyes⟩
    · next hnoop =>
      obtain ⟨f, hf, -⟩ := bind_ok h
      have hno := legible_skeleton onFalse hfalse hf
      by_cases hbranch : onFalse.isBranch = true
      · rw [Statement.skeleton_chain hbranch]
        rw [Statement.skeleton_branch hbranch, LegibleAll] at hno
        refine legibleAll_singleton ?_
        rw [Legible]
        exact ⟨hwritten, hyes, hno.1⟩
      · rw [Statement.skeleton_either hnoop hbranch]
        refine legibleAll_singleton ?_
        rw [Legible]
        exact ⟨hwritten, hyes, hno⟩
/-- The same for the statements of a sequence. -/
theorem legible_skeletonEach : ∀ (statements : List Statement) {parts : List Bytes},
    Statement.everywhereEach Statement.branchRunsNothing statements = true →
    Statement.renderEach statements = .ok parts → LegibleAll (Statement.skeletonEach statements) := by
  intro statements parts hs h
  match statements with
  | [] =>
    rw [Statement.skeletonEach, LegibleAll]
    trivial
  | statement :: rest =>
    rw [Statement.everywhereEach, Bool.and_eq_true] at hs
    rw [Statement.renderEach] at h
    split at h
    · next hnoop =>
      rw [Statement.skeletonEach_noop hnoop]
      exact legible_skeletonEach rest hs.2 h
    · next hnoop =>
      obtain ⟨text, htext, h⟩ := bind_ok h
      obtain ⟨texts, htexts, -⟩ := bind_ok h
      rw [Statement.skeletonEach_cons hnoop]
      exact legibleAll_append (legible_skeleton statement hs.1 htext)
        (legible_skeletonEach rest hs.2 htexts)
end

/-- **Writing a script loses nothing but what its skeleton leaves out.** Two statements that have texts,
and whose conditions run no commands, have the same text exactly if they have the same skeleton. -/
theorem render_determines_skeleton {s t : Statement} {a b : Bytes}
    (hs : s.conditionsRunNothing = true) (ht : t.conditionsRunNothing = true)
    (ha : s.render = .ok a) (hb : t.render = .ok b) : a = b ↔ s.skeleton = t.skeleton := by
  have hsa := lines_skeleton s ha
  have htb := lines_skeleton t hb
  constructor
  · intro hab
    have hlines : lines s.skeleton ++ [] = lines t.skeleton ++ [] := by rw [hsa, htb, hab]
    exact (lines_append_inj _ _ (legible_skeleton s hs ha) (legible_skeleton t ht hb) (Or.inl rfl)
      (Or.inl rfl) hlines).1
  · intro hskeleton
    rw [hskeleton, htb] at hsa
    exact (List.cons.inj hsa).2.symm

/-- A branch that goes on with another one, around a command. -/
def chained (command : Command) (options : List CommandOption) (statements : List Statement) : Statement :=
  .branch (.not (.isFile (bytes "it's"))) (.action command options)
    (.branch (.present (bytes "x\n")) (.sequence statements) .missing)

/-- Two scripts with one skeleton, whose actions display the same text first. And pairs of scripts that differ
in the blanks after a line feed of a command only, in the text to display only, and in whether there is one. -/
theorem render_determines_skeleton_sample :
    (∃ text, (chained (.raw (bytes "mkdir -p x")) [.display (bytes "d"), .echo, .display []] []).render =
        .ok text ∧
      (chained (.makeDir (bytes "x")) [.echo, .display (bytes "d")] [.noop, .sequence [.missing]]).render =
        .ok text) ∧
    (chained (.raw (bytes "a\nb")) [.echo] []).render ≠ (chained (.raw (bytes "a\n  b")) [.echo] []).render ∧
    (chained .newline [.display (bytes "d")] []).render ≠ (chained .newline [.display (bytes "e")] []).render ∧
    (chained .newline [.display []] []).render ≠ (chained .newline [] []).render := by
  -- two texts that are different come from two skeletons that are
  have hdiffer : ∀ {s t : Statement}, s.conditionsRunNothing = true → t.conditionsRunNothing = true →
      (∃ a, s.render = .ok a) → (∃ b, t.render = .ok b) → s.skeleton ≠ t.skeleton → s.render ≠ t.render := by
    rintro s t hs ht ⟨a, ha⟩ ⟨b, hb⟩ hskeleton hrender
    have hab : a = b := Except.ok.inj (ha.symm.trans (hrender.trans hb))
    exact hskeleton ((render_determines_skeleton hs ht ha hb).1 hab)
  have hraw : ∀ text, textOf (.raw text) = text := fun text => rfl
  refine ⟨?_, hdiffer (by decide) (by decide) ⟨_, rfl⟩ ⟨_, rfl⟩ ?_,
    hdiffer (by decide) (by decide) ⟨_, rfl⟩ ⟨_, rfl⟩ ?_, hdiffer (by decide) (by decide) ⟨_, rfl⟩ ⟨_, rfl⟩ ?_⟩
  · obtain ⟨a, ha⟩ : ∃ a, (chained (.raw (bytes "mkdir -p x")) [.display (bytes "d"), .echo, .display []]
        []).render = .ok a := ⟨_, rfl⟩
    obtain ⟨b, hb⟩ : ∃ b, (chained (.makeDir (bytes "x")) [.echo, .display (bytes "d")]
        [.noop, .sequence [.missing]]).render = .ok b := ⟨_, rfl⟩
    have hab : a = b := (render_determines_skeleton (by decide) (by decide) ha hb).2 rfl
    exact ⟨a, ha, hab ▸ hb⟩
  · have htexts : bytes "a\nb" ≠ bytes "a\n  b" := by decide
    simpa [chained, Statement.skeleton, hraw] using htexts
  · have htexts : bytes "d" ≠ bytes "e" := by decide
    simpa [chained, Statement.skeleton, CommandOption.text?] using htexts
  · simp [chained, Statement.skeleton, CommandOption.text?]

end BuildScript
