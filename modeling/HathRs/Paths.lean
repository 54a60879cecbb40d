import Mathlib.Data.List.Infix
import HathRs.TextParsing

/-!
# Paths

A path is a text. What it says is the list of its components: repeated slashes and a slash at
the end are nothing, and neither is a dot but at the beginning. Two paths are equal when their
components are, and a path without its last component is the shortest beginning that has the
others.
-/

namespace HathRs.Paths
open TextParsing

inductive Component where
  | rootDir
  | curDir
  | parentDir
  | normal (name : Text)
  deriving DecidableEq

/-- What stands between two slashes. -/
def component : Text → Option Component
  | [] => none
  | ['.'] => none
  | ['.', '.'] => some .parentDir
  | name => some (.normal name)

def components (path : Text) : List Component :=
  (if path.head? = some '/' then [.rootDir]
    else if (path.splitOn '/').head? = some ['.'] then [.curDir]
    else []) ++ (path.splitOn '/').filterMap component

/-- `PathBuf::push`: a path that starts at the root replaces the one it is pushed to. -/
def push (path name : Text) : Text :=
  if name.head? = some '/' then name
  else if path = [] ∨ path.getLast? = some '/' then path ++ name
  else path ++ '/' :: name

/-- `Path::parent` -/
def parent (path : Text) : Option Text :=
  match (components path).getLast? with
  | none | some .rootDir => none
  | some _ => path.inits.find? fun q => components q = (components path).dropLast

/-- `Path::file_name` -/
def fileName (path : Text) : Option Text :=
  match (components path).getLast? with
  | some (.normal name) => some name
  | _ => none

/-- `PathBuf::pop` -/
def pop (path : Text) : Text := (parent path).getD path

/-- `Path::with_file_name` -/
def withFileName (path name : Text) : Text :=
  push (if (fileName path).isSome then pop path else path) name

/-- The path names something in the directory itself. -/
def Child (dir path : Text) : Prop := ∃ name, components path = components dir ++ [.normal name]

section Names

variable {dir path name other : Text}

/-- A name is its only component. -/
theorem components_name (hne : name ≠ []) (hslash : '/' ∉ name) (hdot : name ≠ ['.'])
    (hdots : name ≠ ['.', '.']) : components name = [.normal name] := by
  have hsplit : name.splitOn '/' = [name] := List.splitOn_eq_singleton hslash
  have hroot : name.head? ≠ some '/' := fun h => hslash (List.mem_of_mem_head? h)
  have hcomponent : component name = some (.normal name) := by
    rw [component]
    · exact hne
    · exact hdot
    · exact hdots
  rw [components, hsplit, if_neg hroot, if_neg (by simpa using hdot)]
  simp [hcomponent]

theorem parts_of_components (h : components name = [.normal other]) :
    name.head? ≠ some '/' ∧ (name.splitOn '/').filterMap component = [.normal other] := by
  rw [components] at h
  split_ifs at h with hroot hdot
  · cases h
  · cases h
  · exact ⟨hroot, h⟩

/-- What stands in front of a slash decides how the path begins. -/
theorem components_slash (path rest : Text) : components (path ++ '/' :: rest) =
    components (path ++ ['/']) ++ (rest.splitOn '/').filterMap component := by
  obtain ⟨first, parts, hsplit⟩ := List.exists_cons_of_ne_nil (List.splitOn_ne_nil '/' path)
  have hhead : (path ++ '/' :: rest).head? = (path ++ ['/']).head? := by
    cases path with
    | nil => rfl
    | cons c path => rfl
  rw [components, components, hhead, List.splitOn_append_cons_self, List.splitOn_append_cons_self,
    hsplit, List.filterMap_append, List.filterMap_append, List.append_assoc, List.append_assoc]
  rfl

theorem components_trailing (hne : path ≠ []) : components (path ++ ['/']) = components path := by
  obtain ⟨c, rest, rfl⟩ := List.exists_cons_of_ne_nil hne
  obtain ⟨first, parts, hsplit⟩ := List.exists_cons_of_ne_nil (List.splitOn_ne_nil '/' (c :: rest))
  rw [components, components, List.splitOn_append_cons_self, hsplit, List.filterMap_append]
  simp [component]

theorem components_push (h : components name = [.normal other]) :
    components (push dir name) = components dir ++ [.normal other] := by
  obtain ⟨hroot, hparts⟩ := parts_of_components h
  rw [push, if_neg hroot]
  split_ifs with hdir
  · rcases hdir with rfl | hlast
    · exact h
    · obtain ⟨front, rfl⟩ := List.getLast?_eq_some_iff.mp hlast
      rw [List.append_assoc, List.singleton_append, components_slash, hparts]
  · rw [components_slash, components_trailing (not_or.mp hdir).1, hparts]

theorem child_push (h : components name = [.normal other]) : Child dir (push dir name) :=
  ⟨other, components_push h⟩

theorem fileName_push (h : components name = [.normal other]) : fileName (push dir name) = some other := by
  rw [fileName, components_push h, List.getLast?_concat]

theorem prefix_push (h : components name = [.normal other]) : dir <+: push dir name := by
  rw [push, if_neg (parts_of_components h).1]
  split_ifs
  · exact List.prefix_append _ _
  · exact List.prefix_append _ _

/-- The parent of what was pushed to a directory is the directory. -/
theorem parent_push (dir : Text) (h : components name = [.normal other]) :
    ∃ q, parent (push dir name) = some q ∧ components q = components dir := by
  have hparent : parent (push dir name) =
      (push dir name).inits.find? fun q => components q = components dir := by
    rw [parent, components_push h, List.getLast?_concat, List.dropLast_concat]
  have hsome : ((push dir name).inits.find? fun q => components q = components dir).isSome := by
    rw [List.find?_isSome]
    exact ⟨dir, (List.mem_inits _ _).mpr (prefix_push h), decide_eq_true rfl⟩
  obtain ⟨q, hq⟩ := Option.isSome_iff_exists.mp hsome
  have hcomponents := List.find?_some hq
  exact ⟨q, hparent.trans hq, of_decide_eq_true hcomponents⟩

theorem components_withFileName {new : Text} (h : components name = [.normal other])
    (hnew : components new = [.normal new]) :
    components (withFileName (push dir name) new) = components dir ++ [.normal new] := by
  obtain ⟨q, hparent, hq⟩ := parent_push dir h
  rw [withFileName, fileName_push h, Option.isSome_some, if_pos rfl, pop, hparent,
    components_push hnew, Option.getD_some, hq]

end Names

end HathRs.Paths
