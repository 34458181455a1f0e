import TalkDeck.Proofs.Text.Percent
import TalkDeck.Proofs.Workspace.Watch

/-
Which path a new file is found by.

The editor names a file by a URI, in which the path below the root is percent-encoded, and the index
takes what follows the root for the path as it is.  A deck names the file by the path itself.  The two
agree where the encoding changes nothing, and so a new file is found by its path if all characters of
the path are ones that a URI keeps, and only then (`step_created`).  A file that the editor lists is
found by its path in any case, since a listing has the path beside the URI (`loadFiles_entries`).
-/

namespace TalkDeck
namespace Workspace

open Text

/-- The characters that the URI of a file keeps. -/
def isPathChar (c : Char) : Bool := Percent.isUnreserved c || c == '/'

/-- A path as it stands in a URI. -/
def encodedPath (path : String) : String := String.ofList (Percent.encode isPathChar path.toList)

theorem encodedPath_eq_self {path : String} :
    encodedPath path = path ↔ path.toList.all isPathChar = true := by
  rw [List.all_eq_true, ← Percent.encode_eq_self, encodedPath, ← String.toList_inj,
    String.toList_ofList]

/-- The URI of the file at a path below a root. -/
def uriBelow (root path : String) : String := root ++ "/" ++ encodedPath path

theorem loadEntries_entries (limits : Limits) (fs : List File) :
    fileKind.loadEntries limits (fs.map File.entry) = (.ok fs, []) := by
  induction fs with
  | nil => rfl
  | cons f fs ih =>
    have hread : fileKind.readEntry f.entry = .ok f :=
      (fileKind_reads f.entry f).mpr ⟨_, rfl, rfl, rfl⟩
    simp only [List.map_cons, EntryKind.loadEntries, ih, hread]
    rfl

namespace Index

variable {i : Index} {path : String}

theorem loadFiles_entries (limits : Limits) (i : Index) (fs : List File) :
    i.loadFiles limits (.arr (fs.map File.entry)) = (.ok { i with files := fs }, []) := by
  rw [loadFiles_eq, EntryKind.load]
  simp only [entries, loadEntries_entries]
  rfl

theorem root_empty {root : String} (h : root.toList.getLast? ≠ some '/') :
    (empty root).root = root ++ "/" := if_neg h

theorem resolve?_eq (hslash : '\\' ∉ path.toList) :
    i.resolve? path = (i.files.find? (·.relativePath == path)).map (·.uri) := by
  have hpath : String.ofList (replaceChar '\\' '/' path.toList) = path := by
    have hsame : replaceChar '\\' '/' path.toList = path.toList := by
      rw [replaceChar]
      conv_rhs => rw [← List.map_id path.toList]
      refine List.map_congr_left fun c hc => if_neg ?_
      rintro rfl
      exact hslash hc
    rw [hsame, String.ofList_toList]
  rw [resolve?, hpath]

/-- A path that resolves to nothing resolves to an added file if it is the file's path. -/
theorem resolve?_append (hslash : '\\' ∉ path.toList) (hnew : i.resolve? path = none) (f : File) :
    ({ i with files := i.files ++ [f] } : Index).resolve? path =
      if f.relativePath = path then some f.uri else none := by
  rw [resolve?_eq hslash, Option.map_eq_none_iff] at hnew
  rw [resolve?_eq hslash, List.find?_append, hnew, Option.none_or, List.find?_singleton]
  by_cases heq : f.relativePath = path
  · simp [heq]
  · simp [heq]

end Index
end Workspace

namespace Session

open Workspace

variable {s : Session} {i : Index} {r p : String}

/-- **A new file is found by its path if a URI keeps all characters of the path**, and otherwise it is
not found by it.  Had the editor listed the file with its path, it would be found in any case. -/
theorem step_created (hi : s.index = some i) (hr : r.toList.getLast? ≠ some '/')
    (hroot : i.root = (Index.empty r).root) (hslash : '\\' ∉ p.toList)
    (hnew : i.resolve? p = none) (hunlisted : ¬i.Lists (uriBelow r p)) (launch : Answer) :
    (∃ j, (s.step (.watched [.created (uriBelow r p)] launch)).2.index = some j ∧
      j.resolve? p = if p.toList.all isPathChar then some (uriBelow r p) else none) ∧
    ∃ k, i.loadFiles s.settings.limits
        (.arr ((i.files ++ [(⟨p, uriBelow r p⟩ : File)]).map File.entry)) = (.ok k, []) ∧
      k.resolve? p = some (uriBelow r p) := by
  have hpath : i.relative? (uriBelow r p) = some (encodedPath p) := by
    rw [Index.relative?_eq_some, hroot, Index.root_empty hr]
    rfl
  have hadded : indexAfter i (.created (uriBelow r p)) =
      { i with files := i.files ++ [⟨encodedPath p, uriBelow r p⟩] } := by
    rw [indexAfter, hpath]
    exact if_neg fun hany => hunlisted (Index.any_iff.mp hany)
  obtain ⟨configs, hindex⟩ := index_step_watched hi [.created (uriBelow r p)] launch
  rw [List.foldl_cons, List.foldl_nil, hadded] at hindex
  constructor
  · have hresolve := Index.resolve?_append hslash hnew ⟨encodedPath p, uriBelow r p⟩
    refine ⟨_, hindex, hresolve.trans ?_⟩
    exact if_congr encodedPath_eq_self rfl rfl
  · have hresolve := Index.resolve?_append hslash hnew ⟨p, uriBelow r p⟩
    refine ⟨_, Index.loadFiles_entries _ i _, hresolve.trans ?_⟩
    exact if_pos rfl

theorem step_created_plainPath :
    ∃ j, (listed.step (.watched [.created "file:///work/src/new.py"] .silent)).2.index = some j ∧
      j.resolve? "src/new.py" = some "file:///work/src/new.py" := by
  have huri : uriBelow "file:///work" "src/new.py" = "file:///work/src/new.py" := by decide +kernel
  have hfresh : ¬listedIndex.Lists (uriBelow "file:///work" "src/new.py") :=
    mt Index.any_iff.mpr (by decide +kernel)
  have hplain : "src/new.py".toList.all isPathChar = true := by decide +kernel
  obtain ⟨⟨j, hindex, hresolve⟩, -⟩ := step_created (r := "file:///work") (p := "src/new.py")
    index_listed (by decide) (by decide +kernel) (by decide) (by decide +kernel) hfresh .silent
  rw [if_pos hplain, huri] at hresolve
  rw [huri] at hindex
  exact ⟨j, hindex, hresolve⟩

/-- A file with a blank in its path, which is not found by the path. -/
theorem not_found_blankInPath :
    uriBelow "file:///work" "my file.py" = "file:///work/my%20file.py" ∧
      listedIndex.resolve? "my file.py" = none ∧
      (listed.step (.watched [.created "file:///work/my%20file.py"] .silent)).2.index.map
        (·.resolve? "my file.py") = some none := by
  decide +kernel

end Session
end TalkDeck
