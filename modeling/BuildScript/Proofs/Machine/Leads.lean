import BuildScript.Proofs.Machine.Execution
import BuildScript.Proofs.Machine.Reach

/-!
# Statements that run to their end

A script without surprises is followed one statement at a time: where each of them leads is known from
where it starts.

* `Machine.Leads`: a statement is run to its end, from one machine to another. `leads_iff`: to one only,
  that at the end of its run.
* `leads_setEnv`, `leads_changeDir`, `leads_remove`, `leads_makeDir`: where single commands lead.
* `Leads.cons_iff`, `leads_makeDir_cons_iff`: the first of some statements taken off.
* `Statement.Logs`: a statement that only gives commands to a shell, on any machine.
* `hasDirectory_iff`, `hasFile_iff`: what the answers to questions say of the tree.
* `wayTo_append`: where a path leads that goes on from another one.
* `segments_resolve_join`: **a name below a path means a name below the place that the path means.**
-/

namespace BuildScript

open BuildScript.Path (segments ofNames IsProper IsClean)

namespace Machine

variable {m m₁ m₂ : Machine} {s : Statement} {rest : List Statement} {path place : Bytes}

/-- A statement is run to its end, from one machine to another. -/
def Leads (m : Machine) (s : Statement) (m₁ : Machine) : Prop := ∃ actions, Completes m s actions m₁

theorem Leads.run (h : m.Leads s m₁) : (m.run s).machine = m₁ ∧ (m.run s).fault? = none := by
  obtain ⟨actions, h⟩ := h
  exact h.run

theorem leads_iff : m.Leads s m₁ ↔ (m.run s).fault? = none ∧ (m.run s).machine = m₁ := by
  constructor
  · intro h
    exact ⟨h.run.2, h.run.1⟩
  · rintro ⟨hfault, rfl⟩
    cases explains_run m s with
    | completed actions none path => exact ⟨actions, path⟩
    | failed actions fault some path =>
      rw [hfault] at some
      cases some

/-- Where a statement leads is known from one way to its end. -/
theorem Leads.eq_iff (h : m.Leads s m₁) : m.Leads s m₂ ↔ m₂ = m₁ := by
  constructor
  · intro h'
    exact h'.run.1.symm.trans h.run.1
  · rintro rfl
    exact h

theorem leads_noop (m : Machine) : m.Leads .noop m := ⟨[], .noop m⟩

theorem leads_nil (m : Machine) : m.Leads (.sequence []) m := ⟨[], .nil m⟩

theorem Leads.cons (h : m.Leads s m₁) (hrest : m₁.Leads (.sequence rest) m₂) :
    m.Leads (.sequence (s :: rest)) m₂ := by
  obtain ⟨first, h⟩ := h
  obtain ⟨next, hrest⟩ := hrest
  exact ⟨first ++ next, h.cons hrest⟩

theorem leads_cons_iff : m.Leads (.sequence (s :: rest)) m₂ ↔
    ∃ m₁, m.Leads s m₁ ∧ m₁.Leads (.sequence rest) m₂ := by
  constructor
  · rintro ⟨actions, h⟩
    cases h with
    | cons head tail => exact ⟨_, ⟨_, head⟩, ⟨_, tail⟩⟩
  · rintro ⟨m₁, h, hrest⟩
    exact h.cons hrest

/-- A statement whose end is known is taken off. -/
theorem Leads.cons_iff (h : m.Leads s m₁) :
    m.Leads (.sequence (s :: rest)) m₂ ↔ m₁.Leads (.sequence rest) m₂ := by
  simp only [leads_cons_iff, h.eq_iff, exists_eq_left]

theorem Leads.fold (h : m.Leads s m₁) (name : Bytes) : m.Leads (.fold name s) m₁ := by
  obtain ⟨actions, h⟩ := h
  exact ⟨actions, h.fold⟩

theorem Leads.onTrue {condition : Condition} (hvalue : m.eval condition = .ok true) (h : m.Leads s m₁)
    (other : Statement) : m.Leads (.branch condition s other) m₁ := by
  obtain ⟨actions, h⟩ := h
  exact ⟨actions, .onTrue hvalue h⟩

theorem Leads.onFalse {condition : Condition} (hvalue : m.eval condition = .ok false) (h : m.Leads s m₁)
    (other : Statement) : m.Leads (.branch condition other s) m₁ := by
  obtain ⟨actions, h⟩ := h
  exact ⟨actions, .onFalse hvalue h⟩

theorem leads_action {command : Command} {options : List CommandOption}
    (hfault : (m.perform command options).fault? = none) :
    m.Leads (.run command options) (m.perform command options).machine :=
  ⟨_, .action hfault⟩

theorem leads_setEnv (m : Machine) (key value : Bytes) :
    m.Leads (.exporting key value) { m with env := setVariable key value m.env } :=
  leads_action rfl

/-- A path that can be written does not stand in the way of a command. -/
theorem withPath_of_text (h : isPathText path = true) (operation : Bytes) (next : Unit → Outcome) :
    m.withPath (checkPath operation path) next = next () := by
  simp only [checkPath, h, if_true, withPath]

theorem leads_changeDir (h : isPathText path = true) (hplace : m.resolve path = place)
    (options : List CommandOption) :
    m.Leads (.run (.changeDir path) options) { m with cwd := place } := by
  subst hplace
  have hdone : m.perform (.changeDir path) options = .done (m.changeDir path) := by
    rw [perform, withPath_of_text h]
  have hleads := leads_action (m := m) (congrArg Outcome.fault? hdone)
  rwa [hdone] at hleads

theorem leads_remove (h : isPathText path = true) (options : List CommandOption) :
    m.Leads (.run (.remove path) options) { m with root := m.root.remove (m.resolve path) } := by
  have hdone : m.perform (.remove path) options = .done (m.remove path) := by
    rw [perform, withPath_of_text h]
  have hleads := leads_action (m := m) (congrArg Outcome.fault? hdone)
  rwa [hdone] at hleads

theorem leads_makeDir (h : isPathText path = true) (hplace : m.resolve path = place)
    (hfree : ∀ part, part <+: segments place → m.root.kinds part ≠ some .file)
    (options : List CommandOption) :
    m.Leads (.run (.makeDir path) options) { m with root := (m.root.makeDir place).root } := by
  subst hplace
  have hdone : m.perform (.makeDir path) options = .ofChange (m.makeDir path) := by
    rw [perform, withPath_of_text h]
  have hfault : (m.makeDir path).fault? = none := makeDir_done_iff.2 hfree
  have hleads : m.Leads (.run (.makeDir path) options) (m.perform (.makeDir path) options).machine := by
    refine leads_action ?_
    rw [hdone, Outcome.ofChange, hfault]
    rfl
  rwa [hdone, Outcome.ofChange, makeDir, edited_machine] at hleads

/-- A directory that is made is taken off: no file is in the way to it. -/
theorem leads_makeDir_cons_iff (h : isPathText path = true) (hplace : m.resolve path = place)
    (options : List CommandOption) :
    m.Leads (.sequence (.run (.makeDir path) options :: rest)) m₁ ↔
      (∀ part, part <+: segments place → m.root.kinds part ≠ some .file) ∧
        Leads { m with root := (m.root.makeDir place).root } (.sequence rest) m₁ := by
  by_cases hfree : ∀ part, part <+: segments place → m.root.kinds part ≠ some .file
  · rw [(leads_makeDir h hplace hfree options).cons_iff, and_iff_right hfree]
  · refine iff_of_false (fun hleads => hfree ?_) fun hboth => hfree hboth.1
    obtain ⟨m₂, hmade, -⟩ := leads_cons_iff.1 hleads
    have hfault : (m.perform (.makeDir path) options).fault? = none := (leads_iff.1 hmade).1
    rw [perform, withPath_of_text h, Outcome.ofChange, Option.map_eq_none_iff] at hfault
    rw [← hplace]
    exact makeDir_done_iff.1 hfault

end Machine

/-! ## Statements that only give commands to a shell -/

namespace Statement

variable {s : Statement} {rest : List Statement} {entries more : List Executed}

/-- A statement that only gives these commands to a shell, whatever the machine is. -/
def Logs (s : Statement) (entries : List Executed) : Prop :=
  ∀ m : Machine, m.Leads s { m with log := m.log ++ entries }

theorem logs_noop : Logs .noop [] := by
  intro m
  rw [List.append_nil]
  exact Machine.leads_noop m

theorem logs_nil : Logs (.sequence []) [] := by
  intro m
  rw [List.append_nil]
  exact Machine.leads_nil m

theorem logs_raw (text : Bytes) (options : List CommandOption) :
    (run (.raw text) options).Logs [⟨text, options⟩] :=
  fun _ => Machine.leads_action rfl

theorem Logs.cons (h : s.Logs entries) (hrest : (sequence rest).Logs more) :
    (sequence (s :: rest)).Logs (entries ++ more) := by
  intro m
  have hleads := (h m).cons (hrest _)
  rwa [List.append_assoc] at hleads

theorem Logs.fold (h : s.Logs entries) (name : Bytes) : (Statement.fold name s).Logs entries :=
  fun m => (h m).fold name

end Statement

/-! ## Questions to a machine -/

namespace Machine

variable {m : Machine} {path name : Bytes}

theorem hasDirectory_iff :
    m.hasDirectory path = true ↔ m.root.kinds (segments (m.resolve path)) = some .dir := by
  rw [Folder.kinds_eq_dir_iff, hasDirectory, lookup]
  cases m.root.walk (segments (m.resolve path)) with
  | none => simp
  | some entry => cases entry <;> simp [Entry.isDir]

theorem hasFile_iff : m.hasFile path = true ↔ m.root.kinds (segments (m.resolve path)) = some .file := by
  have hkinds : m.root.kinds (segments (m.resolve path)) =
      (m.root.walk (segments (m.resolve path))).map Entry.kind := rfl
  rw [hkinds, hasFile, read?, lookup]
  cases m.root.walk (segments (m.resolve path)) with
  | none => simp
  | some entry => cases entry <;> simp [Entry.data?, Entry.kind]

/-! ## Names below a path -/

/-- **Segments are taken one after the other**, so what is put behind a path goes on where the path leads. -/
theorem wayTo_append (hpath : path ≠ []) (more : Bytes) :
    m.wayTo (path ++ Path.slash :: more) =
      ((Bytes.splitOn Path.slash more).foldl (Path.push true) (m.wayTo path).reverse).reverse := by
  have hbegin : Path.isAbsolute (path ++ Path.slash :: more) = Path.isAbsolute path := by
    obtain ⟨b, rest, rfl⟩ := List.exists_cons_of_ne_nil hpath
    rfl
  rw [wayTo, wayTo, hbegin, Bytes.splitOn_append, List.foldl_append, List.reverse_reverse]

section Where

variable (hcwd : m.cwd = [] ∨ IsClean m.cwd)
include hcwd

theorem segments_resolve_eq (path : Bytes) : segments (m.resolve path) = m.wayTo path := by
  rw [resolve_eq hcwd, Path.segments_ofNames fun n hn => (mem_wayTo hcwd hn).1]

/-- **A path means the same when it is cleaned.** -/
theorem resolve_of_clean (path : Bytes) : m.resolve (Path.clean path) = m.resolve path := by
  rw [resolve_eq hcwd, resolve_eq hcwd, wayTo, wayTo, Path.isAbsolute_clean]
  cases habsolute : Path.isAbsolute path with
  | false => rw [Path.foldl_push_clean habsolute]
  | true =>
    have hproper := fun n hn => (Path.proper_reduce path n hn).1
    rw [Path.clean_of_isAbsolute habsolute, if_pos rfl, Path.foldl_push_ofNames hproper,
      List.append_nil, List.reverse_reverse]
    rfl

/-- A path without slashes is one step from the working directory. -/
theorem segments_resolve_step {segment : Bytes} (hslash : Path.slash ∉ segment) :
    segments (m.resolve segment) = (Path.push true (segments m.cwd).reverse segment).reverse := by
  have hrelative : Path.isAbsolute segment = false := by
    rw [Path.isAbsolute, beq_eq_false_iff_ne]
    intro hhead
    exact hslash (List.mem_of_mem_head? hhead)
  rw [segments_resolve_eq hcwd, wayTo, hrelative, Bytes.splitOn_of_not_mem hslash, List.foldl_cons,
    List.foldl_nil]
  rfl

/-- A name means a name in the working directory. -/
theorem segments_resolve_name (hname : IsProper name) :
    segments (m.resolve name) = segments m.cwd ++ [name] := by
  rw [segments_resolve_step hcwd hname.1.2, Path.push_proper hname, List.reverse_cons, List.reverse_reverse]

/-- **A name below a path means a name below the place that the path means.** -/
theorem segments_resolve_join (hname : IsProper name) (path : Bytes) :
    segments (m.resolve (Path.join [path, name])) = segments (m.resolve path) ++ [name] := by
  by_cases hempty : path = []
  · have hjoin : Path.join [path, name] = Path.clean name := by
      simp [hempty, Path.join, hname.1.1, Bytes.join]
    have hhere : segments (m.resolve path) = segments m.cwd := by
      rw [hempty, segments_resolve_step hcwd List.not_mem_nil, Path.push_blank (Or.inl rfl),
        List.reverse_reverse]
    rw [hjoin, resolve_of_clean hcwd, segments_resolve_name hcwd hname, hhere]
  · rw [Path.join_pair hempty hname.1.1, resolve_of_clean hcwd, segments_resolve_eq hcwd,
      segments_resolve_eq hcwd, wayTo_append hempty, Bytes.splitOn_of_not_mem hname.1.2, List.foldl_cons,
      List.foldl_nil, Path.push_proper hname, List.reverse_cons, List.reverse_reverse]

end Where

end Machine

end BuildScript
