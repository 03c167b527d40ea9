import BuildScript.Archive.Gzip
import BuildScript.Archive.Tar
import BuildScript.Store.Basic

/-!
# Bundles

A bundle is a compressed archive of a script and its record.

* `Store.bundle`: makes the bundle of a script.
* `Bundle.items?`: what a bundle holds.
-/

namespace BuildScript

namespace Bundle

mutual
/-- The items of an entry with a name. -/
def itemsOf (name : Bytes) : Entry → List Tar.Item
  | .file data => [⟨name, data⟩]
  | .dir entries => ⟨name ++ Path.root, []⟩ :: itemsBelow (name ++ Path.root) entries
/-- The items of all that is in a folder. -/
def itemsBelow (above : Bytes) : List (Bytes × Entry) → List Tar.Item
  | [] => []
  | (name, entry) :: rest => itemsOf (above ++ name) entry ++ itemsBelow above rest
end

/-- The bytes of a bundle. -/
def encode (items : List Tar.Item) : Bytes := Gzip.encode (Tar.encode items)

/-- What a bundle holds. -/
def items? (s : Bytes) : Option (List Tar.Item) := (Gzip.decode? s).bind Tar.decode?

end Bundle

namespace Store

/-- The name of a bundle. -/
def bundleName (id : Bytes) : Bytes := id ++ bytes ".tar.gz"

/-- Makes the bundle of a script, the script ahead of its record. A bundle that is there is replaced.
The result has the path of the bundle. -/
def bundle (store : Store) (id : Bytes) : Except Fault (Store × Bytes) := do
  let _ ← store.record id
  let scriptPath := store.pathOf (scriptName id)
  let recordPath := store.pathOf (recordName id)
  let script ← onDisk (store.disk.entryFor (bytes "stat") scriptPath)
  let record ← onDisk (store.disk.entryFor (bytes "stat") recordPath)
  let items :=
    Bundle.itemsOf (Path.base scriptPath) script ++ Bundle.itemsOf (Path.base recordPath) record
  let path := store.pathOf (bundleName id)
  let disk ← onDisk (store.disk.write path (Bundle.encode items))
  return ({ store with disk }, path)

end Store

end BuildScript
