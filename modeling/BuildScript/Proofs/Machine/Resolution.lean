import BuildScript.Proofs.Machine.Landing
import BuildScript.Proofs.Machine.Leads

/-!
# Where paths lead

A path leads to one place, which its absolute clean form tells. Relative paths are followed from the working
directory on, so a change of directory is the first part of the way.

* `segments_resolve_here`, `segments_resolve_up`: where single steps lead. There is nothing above the root.
* `resolve_changeDir`: **a path that is followed after a change of directory** leads where the two lead in a row.
* `run_changeDir`: what the command does, also with a path that cannot be written into a script.
* `path_resolution_laws`: these and the form of resolved paths, in every state that a machine can reach.
-/

namespace BuildScript.Machine

open BuildScript.Path (segments IsProper IsClean ofNames)

variable {m : Machine} {p q : Bytes}

/-- The command looks at its path first, and changes nothing if that cannot be written into a script. -/
theorem run_changeDir (m : Machine) (p : Bytes) (options : List CommandOption) :
    m.run (.action (.changeDir p) options) =
      if isPathText p then .done (m.changeDir p) else .failed m (.path ⟨bytes "cd", p⟩) := by
  rw [run, perform]
  cases htext : isPathText p with
  | true => exact withPath_of_text htext _ _
  | false =>
    have hcheck : checkPath (bytes "cd") p = .error ⟨bytes "cd", p⟩ := by
      rw [checkPath, htext]
      rfl
    rw [hcheck]
    rfl

section Where

variable (hcwd : m.cwd = [] ∨ IsClean m.cwd)
include hcwd

theorem segments_resolve_here : segments (m.resolve Path.here) = segments m.cwd := by
  rw [segments_resolve_step hcwd (by decide), Path.push_blank (Or.inr rfl), List.reverse_reverse]

/-- A step up takes the last name off the working directory. At the root there is none to take. -/
theorem segments_resolve_up : segments (m.resolve Path.up) = (segments m.cwd).dropLast := by
  have hproper := (start_ofNames hcwd).1
  rw [segments_resolve_step hcwd (by decide)]
  -- a step up would stay on the stack only behind another one, and there is none on the way to a directory
  rcases List.eq_nil_or_concat (segments m.cwd) with htop | ⟨above, last, hway⟩
  · rw [htop]
    rfl
  · have hlast : last ≠ Path.up := by
      refine (hproper last ?_).2.2
      rw [hway]
      simp
    rw [hway, List.concat_eq_append, List.reverse_append, List.reverse_singleton, List.singleton_append,
      Path.push_up, if_neg hlast, List.reverse_reverse, List.dropLast_concat]

/-- **A path that is followed after a change of directory** leads where the two lead in a row. -/
theorem resolve_changeDir (hp : p ≠ []) (hq : Path.isAbsolute q = false) :
    (m.changeDir p).1.resolve q = m.resolve (p ++ Path.slash :: q) := by
  have hchanged : (m.changeDir p).1.cwd = m.resolve p := rfl
  have hclean : IsClean (m.changeDir p).1.cwd := by
    rw [hchanged]
    exact isClean_resolve hcwd p
  -- the names that `q` is followed from are those that `p` has led to, so a step up in `q` takes off a name
  -- of `p`, or one from before it
  have hway : (m.changeDir p).1.wayTo q = m.wayTo (p ++ Path.slash :: q) := by
    rw [wayTo_append hp, wayTo, hq, hchanged, segments_resolve_eq hcwd]
    rfl
  rw [resolve_eq (Or.inr hclean), resolve_eq hcwd, hway]

end Where

/-- **The laws of paths.** In every state that can be reached, a path is resolved to an absolute clean one, which
is resolved to itself and is its segments put together again. Single steps from the working directory lead to a
name in it, to itself, and to the directory above it, which for the root is the root. Following a relative path
after a change of directory leads where both in a row lead, whatever the two are made of. The command does that
for a path that can be written into a script; it refuses any other, and then nothing is changed. -/
theorem path_resolution_laws (hm : m.Reachable) :
    (∀ p, (Path.isAbsolute (m.resolve p) = true ∧ Path.clean (m.resolve p) = m.resolve p) ∧
      (∀ n ∈ segments (m.resolve p), IsProper n) ∧
      m.resolve (m.resolve p) = m.resolve p ∧
      Path.slash :: Bytes.join Path.root (segments (m.resolve p)) = m.resolve p) ∧
    ((∀ n, IsProper n → segments (m.resolve n) = segments m.cwd ++ [n]) ∧
      segments (m.resolve Path.here) = segments m.cwd ∧
      segments (m.resolve Path.up) = (segments m.cwd).dropLast) ∧
    ∀ p q, p ≠ [] → Path.isAbsolute q = false →
      (m.changeDir p).1.resolve q = m.resolve (p ++ Path.slash :: q) ∧
      ∀ options,
        ((m.run (.action (.changeDir p) options)).fault? = none ↔ isPathText p = true) ∧
        (m.run (.action (.changeDir p) options)).machine.resolve q =
          if isPathText p then m.resolve (p ++ Path.slash :: q) else m.resolve q := by
  have hcwd := hm.sound.cwd
  refine ⟨?_, ⟨?_, segments_resolve_here hcwd, segments_resolve_up hcwd⟩, ?_⟩
  · intro p
    have hclean := isClean_resolve hcwd p
    refine ⟨hclean, ?_, resolve_isClean m hclean, Path.ofNames_segments hclean⟩
    intro n hn
    rw [segments_resolve_eq hcwd] at hn
    exact (mem_wayTo hcwd hn).1
  · intro n hn
    exact segments_resolve_name hcwd hn
  · intro p q hp hq
    have hcomposed := resolve_changeDir hcwd hp hq
    refine ⟨hcomposed, ?_⟩
    intro options
    rw [run_changeDir]
    cases isPathText p with
    | true => exact ⟨iff_of_true rfl rfl, hcomposed⟩
    | false => exact ⟨iff_of_false nofun nofun, rfl⟩

/-- A path with a step that is taken back, and one above. -/
def windingPath : Bytes := bytes "x/..//../"

/-- A path with more steps up than there are directories. -/
def windingRest : Bytes := bytes "./../../../y//."

/-- From the home directory both lead to a name in the root. A path that is no text is refused. -/
theorem path_resolution_laws_winding :
    fresh.Reachable ∧ fresh.resolve (bytes "../x") = bytes "/home/x" ∧
    Path.slash :: Bytes.join Path.root (segments (bytes "/home/x")) = bytes "/home/x" ∧
    (fresh.changeDir windingPath).1.resolve windingRest =
      fresh.resolve (windingPath ++ Path.slash :: windingRest) ∧
    fresh.resolve (windingPath ++ Path.slash :: windingRest) = bytes "/y" ∧
    (fresh.run (.action (.changeDir windingPath) [])).machine.resolve windingRest = bytes "/y" ∧
    (fresh.run (.action (.changeDir [255]) [])).machine.resolve (bytes "y") = bytes "/home/travis/y" := by
  have hreachable : fresh.Reachable := ⟨.fresh, [], rfl⟩
  obtain ⟨hresolve, -, hchange⟩ := path_resolution_laws hreachable
  have hup : fresh.resolve (bytes "../x") = bytes "/home/x" := by decide +kernel
  have hboth : fresh.resolve (windingPath ++ Path.slash :: windingRest) = bytes "/y" := by decide +kernel
  have hjoined := (hresolve (bytes "../x")).2.2.2
  rw [hup] at hjoined
  obtain ⟨hcomposed, hrun⟩ := hchange windingPath windingRest (by decide) (by decide)
  have hdone := (hrun []).2
  have hrefused := ((hchange [255] (bytes "y") (by decide) (by decide)).2 []).2
  rw [if_pos (by decide +kernel), hboth] at hdone
  rw [if_neg (by decide +kernel)] at hrefused
  exact ⟨hreachable, hup, hjoined, hcomposed, hboth, hdone, hrefused.trans (by decide +kernel)⟩

end BuildScript.Machine
