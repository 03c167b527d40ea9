import BuildScript.Proofs.Shell.Indentation

/-!
# Whole scripts as the shell reads them

The text of a statement holds the lines of its actions between lines of the shell's own grammar, and
each branch around an action indents its line once more.

* `Statement.actions`: the actions of a statement, from left to right, each with the number of
  branches around it.
* `readsActions_render`: what is read of the actions: **each word is shifted once for every branch around
  the action.**
* `nested_actions_read`: so the shell runs what the tree says exactly if no action inside a branch
  has a line feed in its texts.
-/

namespace BuildScript

/-- Whether a condition runs no command. -/
def Condition.runsNothing : Condition → Bool
  | succeeds _ => false
  | .and left right | .or left right => left.runsNothing && right.runsNothing
  | .not inner | reference inner => inner.runsNothing
  | missing | present _ | isDirectory _ | isFile _ => true

/-- An action at its place in a statement. -/
structure PlacedAction where
  /-- The number of branches around it. -/
  depth : Nat
  command : Command
  options : List CommandOption
  deriving Repr, DecidableEq

mutual
/-- Whether all nodes of a statement, the statement itself included, pass a test. -/
def Statement.everywhere (test : Statement → Bool) : Statement → Bool
  | .sequence statements =>
    test (.sequence statements) && Statement.everywhereEach test statements
  | .fold name body => test (.fold name body) && body.everywhere test
  | .branch condition onTrue onFalse =>
    test (.branch condition onTrue onFalse) && onTrue.everywhere test && onFalse.everywhere test
  | .reference statement => test (.reference statement) && statement.everywhere test
  | .missing => test .missing
  | .noop => test .noop
  | .action command options => test (.action command options)
/-- Whether all nodes of some statements pass a test. -/
def Statement.everywhereEach (test : Statement → Bool) : List Statement → Bool
  | [] => true
  | statement :: rest => statement.everywhere test && Statement.everywhereEach test rest
end

/-- Whether a node is no branch, or one whose condition runs no command. -/
def Statement.branchRunsNothing : Statement → Bool
  | .branch condition _ _ => condition.runsNothing
  | _ => true

/-- Whether no condition of a statement runs a command. -/
def Statement.conditionsRunNothing (s : Statement) : Bool := s.everywhere Statement.branchRunsNothing

/-- The same action with one more branch around it. -/
def PlacedAction.deeper (action : PlacedAction) : PlacedAction :=
  { action with depth := action.depth + 1 }

mutual
/-- The actions of a statement, from left to right. -/
def Statement.actions : Statement → List PlacedAction
  | .sequence statements => Statement.actionsEach statements
  | .fold _ body => body.actions
  | .action command options => [⟨0, command, options⟩]
  | .branch _ onTrue onFalse => (onTrue.actions ++ onFalse.actions).map PlacedAction.deeper
  | .missing | .noop | .reference _ => []
/-- The actions of statements in a row. -/
def Statement.actionsEach : List Statement → List PlacedAction
  | [] => []
  | statement :: rest => statement.actions ++ Statement.actionsEach rest
end

namespace Shell

open Reader

/-- The conditions under which a node leaves the quotes of its text balanced and is no second branch
of an `elif`: its condition runs no command, its alternative is no branch itself, and its fold name is
made of the characters that mean themselves. -/
def isReadable : Statement → Bool
  | .branch condition _ onFalse => condition.runsNothing && !onFalse.isBranch
  | .fold name _ => name.all fun b => Word.isSafe b.toNat
  | _ => true

/-- The text of a command; empty if it has none. -/
def textOf (command : Command) : Bytes := command.render.toOption.getD []

/-- The words that an action stands for, wherever it is. -/
def wordsOf (action : PlacedAction) : List Bytes :=
  actionWords (textOf action.command) action.options

/-- The words that are read of an action: shifted once for every branch around it. -/
def wordsRead (action : PlacedAction) : List Bytes := (wordsOf action).map shift^[action.depth]

/-- Whether a command of the shell is an action. -/
def isAction (command : List Bytes) : Bool := command.head? = some (bytes "travis_cmd")

/-- Whether the texts of an action, the text of its command and the text to display, have no line
feed. -/
def onOneLine (action : PlacedAction) : Prop :=
  10 ∉ textOf action.command ∧ ∀ text, CommandOption.Displays action.options (some text) → 10 ∉ text

/-! ## Lines that are no actions -/

/-- A text that goes on with the command that has begun, to the end of the text. -/
def GoesOn (text : Bytes) : Prop :=
  ∀ (r : Reader) (w : Bytes), r.mode = .bare → r.words.head? = some w →
    ∃ r', r.run .steady text = some r' ∧ r'.mode = .bare ∧ r'.commands = r.commands ∧
      r'.words.head? = some w

namespace GoesOn

theorem append {a b : Bytes} (ha : GoesOn a) (hb : GoesOn b) : GoesOn (a ++ b) := by
  intro r w hm hw
  obtain ⟨r₁, h₁, hm₁, hc₁, hw₁⟩ := ha r w hm hw
  obtain ⟨r₂, h₂, hm₂, hc₂, hw₂⟩ := hb r₁ w hm₁ hw₁
  exact ⟨r₂, by rw [run_append, h₁, Option.bind_some, h₂], hm₂, hc₂.trans hc₁, hw₂⟩

theorem of_reads {text word : Bytes} (h : Reads .steady text word) : GoesOn text :=
  fun r _ hm hw => ⟨_, h r hm, hm, rfl, hw⟩

theorem blank : GoesOn [32] := by
  intro r w hm hw
  refine ⟨r.endWord, by rw [run_cons, step_blank hm]; rfl, hm, rfl, ?_⟩
  simp [endWord, List.head?_append, hw]

/-- Fixed text without quoting marks and line feeds. -/
theorem literal {text : Bytes} (h : (text.all fun b => isOrdinary b || b = 32) = true) :
    GoesOn text := by
  induction text with
  | nil => exact fun r w hm hw => ⟨r, rfl, hm, rfl, hw⟩
  | cons b text ih =>
    simp only [List.all_cons, Bool.and_eq_true, Bool.or_eq_true, decide_eq_true_eq] at h
    have hb : GoesOn [b] := by
      rcases h.1 with hb | rfl
      · exact of_reads (reads_ordinary (by simpa using hb))
      · exact blank
    exact hb.append (ih h.2)

/-- Fixed text on both sides. -/
theorem between {before text after : Bytes} (h : GoesOn text)
    (hbefore : (before.all fun b => isOrdinary b || b = 32) = true)
    (hafter : (after.all fun b => isOrdinary b || b = 32) = true) :
    GoesOn (before ++ text ++ after) :=
  ((literal hbefore).append h).append (literal hafter)

end GoesOn

theorem bind_ok {α β : Type} {x : Except Fault α} {f : α → Except Fault β} {b : β}
    (h : (x >>= f) = .ok b) : ∃ a, x = .ok a ∧ f a = .ok b := by
  cases x with
  | error fault => cases h
  | ok a => exact ⟨a, rfl, h⟩

theorem goesOn_test {flag path text : Bytes} (hflag : (flag.all fun b => isOrdinary b || b = 32) = true)
    (h : test flag path = .ok text) : GoesOn text := by
  obtain ⟨word, hword, htext⟩ := bind_ok h
  have hw : word = Word.escape path := by
    unfold pathWord at hword
    split at hword
    · exact (Except.ok.inj hword).symm
    · cases hword
  subst hw
  rw [← Except.ok.inj htext]
  refine (GoesOn.append ?_ (.of_reads (reads_escape path))).append (.literal (by decide))
  exact (GoesOn.literal hflag).between (by decide) (by decide)

/-- **A condition that runs no command stays on its line.** -/
theorem goesOn_condition {condition : Condition} {text : Bytes} (hc : condition.runsNothing = true)
    (h : condition.render = .ok text) : GoesOn text := by
  induction condition generalizing text with
  | missing => cases h
  | present path => exact goesOn_test (by decide) h
  | isDirectory path => exact goesOn_test (by decide) h
  | isFile path => exact goesOn_test (by decide) h
  | succeeds command => cases hc
  | reference inner => cases h
  | and left right ihl ihr =>
    simp only [Condition.runsNothing, Bool.and_eq_true] at hc
    obtain ⟨l, hl, h⟩ := bind_ok h
    obtain ⟨r, hr, h⟩ := bind_ok h
    rw [← Except.ok.inj h]
    refine (GoesOn.append ?_ (ihr hc.2 hr)).append (.literal (by decide))
    exact (ihl hc.1 hl).between (by decide) (by decide)
  | or left right ihl ihr =>
    simp only [Condition.runsNothing, Bool.and_eq_true] at hc
    obtain ⟨l, hl, h⟩ := bind_ok h
    obtain ⟨r, hr, h⟩ := bind_ok h
    rw [← Except.ok.inj h]
    refine (GoesOn.append ?_ (ihr hc.2 hr)).append (.literal (by decide))
    exact (ihl hc.1 hl).between (by decide) (by decide)
  | not inner ih =>
    obtain ⟨t, ht, h⟩ := bind_ok h
    rw [← Except.ok.inj h]
    exact (ih hc ht).between (by decide) (by decide)

/-- **The first line of a branch** is one command, and no action. -/
theorem commands?_if {condition : Bytes} (h : GoesOn condition) :
    ∃ line, commands? .steady (bytes "if " ++ condition ++ bytes "; then") = some [line] ∧
      isAction line = false := by
  have hif : start.run .steady (bytes "if ") = some ⟨.bare, none, [bytes "if"], []⟩ := by decide
  have hthen : GoesOn (bytes "; then") := .literal (by decide)
  obtain ⟨r, hr, hm, hc, hw⟩ :=
    h.append hthen ⟨.bare, none, [bytes "if"], []⟩ (bytes "if") rfl rfl
  refine ⟨r.words ++ r.word?.toList, ?_, ?_⟩
  · rw [List.append_assoc, commands?, run_append, hif, Option.bind_some, hr]
    simp [finish, hm, endLine, endWord, hc]
  · rw [isAction, List.head?_append, hw, Option.some_or]
    decide

theorem isOrdinary_of_isSafe {b : UInt8} (h : Word.isSafe b.toNat = true) : isOrdinary b = true :=
  isOrdinary_of_isPlain (isPlain_of_isSafe h)

/-- A fold name that can be written and is made of safe characters is read as it stands. -/
theorem ordinary_foldName {name : Bytes} (hcheck : FoldName.check name = .ok ())
    (hsafe : (name.all fun b => Word.isSafe b.toNat) = true) :
    (name != [] && name.all isOrdinary) = true := by
  have hne : name ≠ [] := by
    rintro rfl
    simp [FoldName.check] at hcheck
  rw [Bool.and_eq_true, bne_iff_ne]
  refine ⟨hne, List.all_eq_true.2 fun b hb => isOrdinary_of_isSafe ?_⟩
  simpa using List.all_eq_true.1 hsafe b hb

/-! ## Statements -/

/-- What a text has to be for the actions: its commands are read, and those that are actions have the
words that are to be read of them. -/
def ReadsActions (text : Bytes) (actions : List PlacedAction) : Prop :=
  ∃ commands, commands? .steady text = some commands ∧
    commands.filter isAction = actions.map wordsRead

namespace ReadsActions

variable {a b text : Bytes} {xs ys : List PlacedAction}

/-- Lines that are read one after the other. -/
theorem lines (ha : ReadsActions a xs) (hb : ReadsActions b ys) :
    ReadsActions (a ++ 10 :: b) (xs ++ ys) := by
  obtain ⟨ca, hca, hxs⟩ := ha
  obtain ⟨cb, hcb, hys⟩ := hb
  refine ⟨ca ++ cb, by rw [commands?_line hca, hcb]; rfl, ?_⟩
  rw [List.filter_append, hxs, hys, List.map_append]

/-- A line that is no action. -/
theorem none {line : List Bytes} (h : commands? .steady text = some [line])
    (hline : isAction line = false) : ReadsActions text [] :=
  ⟨[line], h, by simp [hline]⟩

end ReadsActions

theorem isAction_shift (command : List Bytes) : isAction (command.map shift) = isAction command := by
  have hfixed : 10 ∉ bytes "travis_cmd" := by decide
  cases command with
  | nil => rfl
  | cons w ws =>
    have hiff : shift w = bytes "travis_cmd" ↔ w = bytes "travis_cmd" := by
      constructor
      · intro h
        have hw : 10 ∉ w := by rw [← mem_shift, h]; exact hfixed
        rwa [shift_eq_self hw] at h
      · rintro rfl; exact shift_eq_self hfixed
    simp [isAction, hiff]

theorem wordsRead_deeper (action : PlacedAction) :
    wordsRead action.deeper = (wordsRead action).map shift := by
  simp only [wordsRead, PlacedAction.deeper, Function.iterate_succ', List.map_map]; rfl

/-- **Indentation puts one more branch around the actions.** -/
theorem ReadsActions.indent {text : Bytes} {actions : List PlacedAction}
    (h : ReadsActions text actions) :
    ReadsActions (indent text) (actions.map PlacedAction.deeper) := by
  obtain ⟨commands, hread, hactions⟩ := h
  refine ⟨_, commands?_indent hread, ?_⟩
  have hfilter : isAction ∘ (fun command => command.map shift) = isAction := funext isAction_shift
  rw [List.filter_map, hfilter, hactions, List.map_map, List.map_map]
  exact List.map_congr_left fun action _ => (wordsRead_deeper action).symm

theorem readsActions_action {command : Command} {options : List CommandOption} {text : Bytes}
    (h : renderAction command options = .ok text) :
    ReadsActions text [⟨0, command, options⟩] := by
  obtain ⟨t, ht, -⟩ := bind_ok h
  obtain ⟨line, hline, hread⟩ := commands?_renderAction ht options
  have htext : textOf command = t := by rw [textOf, ht]; rfl
  rw [Except.ok.inj (h.symm.trans hline)]
  refine ⟨_, hread, ?_⟩
  have hisAction : isAction (actionWords t options) = true := by simp [isAction, actionWords]
  simp [hisAction, wordsRead, wordsOf, htext]

/-- The marker of a fold is one command, and no action. -/
theorem readsActions_marker {name : Bytes} (edge : Bytes)
    (hname : (name != [] && name.all isOrdinary) = true)
    (hedge : (edge != [] && edge.all isOrdinary) = true) :
    ReadsActions (Bytes.join [32] [foldFunction, edge, name]) [] := by
  have hne : foldFunction ≠ bytes "travis_cmd" := by decide
  refine .none (commands?_join (.cons (reads_ordinary (by decide)) (.cons (reads_ordinary hedge)
    (.cons (reads_ordinary hname) .nil)))) ?_
  simp [isAction, hne]

theorem readsActions_fold {name body : Bytes} {actions : List PlacedAction}
    (hcheck : FoldName.check name = .ok ()) (hsafe : (name.all fun b => Word.isSafe b.toNat) = true)
    (h : ReadsActions body actions) : ReadsActions (foldText name body) actions := by
  have hname := ordinary_foldName hcheck hsafe
  have hstart := readsActions_marker (bytes "start") hname (by decide)
  have hend := readsActions_marker (bytes "end") hname (by decide)
  have heq : foldText name body = Bytes.join [32] [foldFunction, bytes "start", name] ++
      10 :: (body ++ 10 :: Bytes.join [32] [foldFunction, bytes "end", name]) := by
    simp only [foldText, Bytes.join, List.append_assoc]; rfl
  rw [heq]
  simpa using hstart.lines (h.lines hend)

/-- A keyword on a line of its own. -/
theorem readsActions_fi : ReadsActions (bytes "fi") [] :=
  .none (show commands? .steady (bytes "fi") = some [[bytes "fi"]] by decide) (by decide)

theorem readsActions_else : ReadsActions (bytes "else") [] :=
  .none (show commands? .steady (bytes "else") = some [[bytes "else"]] by decide) (by decide)

theorem readsActions_when {condition onTrue : Bytes} {xs : List PlacedAction}
    (hc : GoesOn condition) (ht : ReadsActions onTrue xs) :
    ReadsActions (whenText condition onTrue) (xs.map PlacedAction.deeper) := by
  obtain ⟨line, hline, hno⟩ := commands?_if hc
  have heq : whenText condition onTrue = (bytes "if " ++ condition ++ bytes "; then") ++
      10 :: (indent onTrue ++ 10 :: bytes "fi") := by
    simp only [whenText, List.append_assoc]; rfl
  rw [heq]
  simpa using (ReadsActions.none hline hno).lines (ht.indent.lines readsActions_fi)

theorem readsActions_either {condition onTrue onFalse : Bytes} {xs ys : List PlacedAction}
    (hc : GoesOn condition) (ht : ReadsActions onTrue xs) (hf : ReadsActions onFalse ys) :
    ReadsActions (eitherText condition onTrue onFalse) ((xs ++ ys).map PlacedAction.deeper) := by
  obtain ⟨line, hline, hno⟩ := commands?_if hc
  have heq : eitherText condition onTrue onFalse = (bytes "if " ++ condition ++ bytes "; then") ++
      10 :: (indent onTrue ++ 10 :: (bytes "else" ++ 10 :: (indent onFalse ++ 10 :: bytes "fi"))) := by
    simp only [eitherText, List.append_assoc]; rfl
  rw [heq, List.map_append]
  simpa using (ReadsActions.none hline hno).lines
    (ht.indent.lines (readsActions_else.lines (hf.indent.lines readsActions_fi)))

theorem actions_of_isNoop {statement : Statement} (h : statement.isNoop = true) :
    statement.actions = [] := by
  cases statement <;> simp_all [Statement.isNoop, Statement.actions]

theorem readsActions_nil : ReadsActions [] [] :=
  .none (show commands? .steady [] = some [[]] by decide) (by decide)

/-- Only no actions are read of nothing. -/
theorem ReadsActions.eq_nil {actions : List PlacedAction} (h : ReadsActions [] actions) :
    actions = [] := by
  obtain ⟨commands, hread, hactions⟩ := h
  have hc : commands = [[]] := by
    have : commands? .steady [] = some [[]] := by decide
    exact Option.some.inj (hread.symm.trans this)
  rw [hc] at hactions
  exact List.map_eq_nil_iff.1 (hactions.symm.trans (by decide))

mutual
/-- **Each branch shifts the words of the actions inside it once**, and nothing else happens to
them. -/
theorem readsActions_render : ∀ (s : Statement) {text : Bytes}, s.everywhere isReadable = true →
    s.render = .ok text → ReadsActions text s.actions := by
  intro s text hs h
  match s with
  | .missing => cases h; exact readsActions_nil
  | .noop => cases h; exact readsActions_nil
  | .reference _ => cases h
  | .action command options => exact readsActions_action h
  | .sequence statements =>
    rw [Statement.everywhere, Bool.and_eq_true] at hs
    rw [Statement.render] at h
    obtain ⟨parts, hparts, h⟩ := bind_ok h
    rw [← Except.ok.inj h]
    exact readsActions_renderEach statements hs.2 hparts
  | .fold name body =>
    rw [Statement.everywhere, Bool.and_eq_true] at hs
    rw [Statement.render] at h
    split at h
    · cases h
    · rename_i hcheck
      obtain ⟨t, ht, h⟩ := bind_ok h
      rw [← Except.ok.inj h]
      exact readsActions_fold hcheck hs.1 (readsActions_render body hs.2 ht)
  | .branch condition onTrue onFalse =>
    rw [Statement.everywhere, Bool.and_eq_true, Bool.and_eq_true, isReadable, Bool.and_eq_true] at hs
    obtain ⟨⟨⟨hcond, helse⟩, htrue⟩, hfalse⟩ := hs
    rw [Statement.render] at h
    obtain ⟨c, hc, h⟩ := bind_ok h
    obtain ⟨t, ht, h⟩ := bind_ok h
    have hgo := goesOn_condition hcond hc
    have hread := readsActions_render onTrue htrue ht
    rw [Statement.actions]
    split at h
    · rename_i hnoop
      rw [← Except.ok.inj h, actions_of_isNoop hnoop, List.append_nil]
      exact readsActions_when hgo hread
    · -- the alternative is no branch, so it is not joined to this one by an `elif`
      obtain ⟨f, hf, h⟩ := bind_ok h
      rw [← Except.ok.inj h, if_neg (by simpa using helse)]
      exact readsActions_either hgo hread (readsActions_render onFalse hfalse hf)
/-- The same for statements in a row. -/
theorem readsActions_renderEach : ∀ (statements : List Statement) {parts : List Bytes},
    Statement.everywhereEach isReadable statements = true →
    Statement.renderEach statements = .ok parts →
    ReadsActions (Bytes.join [10] parts) (Statement.actionsEach statements) := by
  intro statements parts hs h
  match statements with
  | [] => cases h; exact readsActions_nil
  | statement :: rest =>
    rw [Statement.everywhereEach, Bool.and_eq_true] at hs
    rw [Statement.renderEach] at h
    rw [Statement.actionsEach]
    split at h
    · rename_i hnoop
      rw [actions_of_isNoop hnoop]
      exact readsActions_renderEach rest hs.2 h
    · obtain ⟨text, htext, h⟩ := bind_ok h
      obtain ⟨texts, htexts, h⟩ := bind_ok h
      rw [← Except.ok.inj h]
      have hone := readsActions_render statement hs.1 htext
      have hrest := readsActions_renderEach rest hs.2 htexts
      cases texts with
      | nil =>
        -- the statements that follow have no text, so they have no actions either
        rw [ReadsActions.eq_nil hrest, List.append_nil]
        exact hone
      | cons next texts =>
        rw [Bytes.join, List.append_assoc]
        exact hone.lines hrest
end

/-! ## What nesting changes -/

theorem flagWords_oneLine {options : List CommandOption} : (∀ w ∈ flagWords options, 10 ∉ w) ↔
    ∀ text, CommandOption.Displays options (some text) → 10 ∉ text := by
  have hecho : 10 ∉ bytes "--echo" := by decide
  have hassert : 10 ∉ bytes "--assert" := by decide
  have hdisplay : 10 ∉ bytes "--display=" := by decide
  simp only [CommandOption.displays_iff]
  unfold flagWords
  cases options.findSome? CommandOption.text? <;> split <;> split <;> simp [hecho, hassert, hdisplay]

/-- The words of an action are on one line if its texts are. -/
theorem wordsOf_oneLine {action : PlacedAction} :
    (∀ w ∈ wordsOf action, 10 ∉ w) ↔ onOneLine action := by
  have hfunction : 10 ∉ bytes "travis_cmd" := by decide
  rw [wordsOf, actionWords, List.forall_mem_cons, List.forall_mem_cons, flagWords_oneLine, onOneLine]
  exact ⟨fun h => h.2, fun h => ⟨hfunction, h⟩⟩

/-- **An action is read as it is in the tree** exactly if there is no branch around it, or its texts
are on one line. -/
theorem wordsRead_eq_wordsOf {action : PlacedAction} :
    wordsRead action = wordsOf action ↔ (action.depth ≠ 0 → onOneLine action) := by
  have hmap : wordsRead action = wordsOf action ↔
      ∀ w ∈ wordsOf action, shift^[action.depth] w = w := by
    rw [wordsRead]
    conv_lhs => rhs; rw [← List.map_id (wordsOf action)]
    exact List.map_inj_left
  rw [hmap, ← wordsOf_oneLine]
  simp only [iterate_shift_eq_self]
  exact ⟨fun h hd w hw => h w hw hd, fun h w hw hd => h hd w hw⟩

/-- **What the shell runs of the actions of a script.** The text of a statement whose conditions run no
command, that has no branch directly in the place of an alternative, and whose fold names are made of
safe characters can be read, and its actions are read in their order, with every word shifted once for
every branch around the action. So the shell runs what the tree says exactly if the actions inside
branches have no line feed in their texts. -/
theorem nested_actions_read {s : Statement} {text : Bytes} (hs : s.everywhere isReadable = true)
    (h : s.render = .ok text) :
    ∃ commands, commands? .lenient text = some commands ∧
      commands.filter isAction = s.actions.map wordsRead ∧
      (commands.filter isAction = s.actions.map wordsOf ↔
        ∀ action ∈ s.actions, action.depth ≠ 0 → onOneLine action) := by
  obtain ⟨commands, hread, hactions⟩ := readsActions_render s hs h
  refine ⟨commands, commands?_mono steady_le_lenient hread, hactions, ?_⟩
  rw [hactions, List.map_inj_left]
  exact forall₂_congr fun action _ => wordsRead_eq_wordsOf

/-- A script with a line feed in an action outside branches and none in an action inside one. -/
def nestedSample : Statement :=
  .sequence [.fold (bytes "setup") (.action (.raw (bytes "a\nb")) [.echo]),
    .branch (.not (.isFile (bytes "x y"))) .missing (.action (.makeDir (bytes "it's")) [])]

theorem nested_actions_read_sample :
    nestedSample.everywhere isReadable = true ∧
      ∃ text commands, nestedSample.render = .ok text ∧ commands? .lenient text = some commands ∧
        commands.filter isAction =
          [[bytes "travis_cmd", bytes "a\nb", bytes "--echo"],
            [bytes "travis_cmd", bytes "mkdir -p it\\'s"]] := by
  have hs : nestedSample.everywhere isReadable = true := by decide
  obtain ⟨text, htext⟩ : ∃ text, nestedSample.render = .ok text := ⟨_, rfl⟩
  obtain ⟨commands, hread, hactions, -⟩ := nested_actions_read hs htext
  exact ⟨hs, text, commands, htext, hread, hactions.trans (by decide)⟩

/-- A branch around an action with a line feed. -/
def shiftedSample : Statement :=
  .branch (.present (bytes "x")) (.action (.raw (bytes "a\nb")) []) .noop

/-- **A line feed inside a branch is not kept**: the shell is given two blanks that are not in the
tree. -/
theorem nested_line_feed_shifted :
    shiftedSample.everywhere isReadable = true ∧
      ∃ text commands, shiftedSample.render = .ok text ∧ commands? .lenient text = some commands ∧
        commands.filter isAction = [[bytes "travis_cmd", bytes "a\n  b"]] ∧
        shiftedSample.actions.map wordsOf = [[bytes "travis_cmd", bytes "a\nb"]] :=
  ⟨by decide, bytes "if [[ -e x ]]; then\n  travis_cmd a'\n  'b\nfi", _, by decide, rfl, by decide,
    by decide⟩

end Shell

end BuildScript
