import PerVERT.Core.HexText

/-!
# Paths

An absolute path, read from left to right: a name goes one directory down, `..` one up, and an
empty name or `.` nowhere.

* `components`, `resolveStep`, `resolve` — the names of a path, and the directory they lead to.
* `Within root path` — the path leads to `root`, or below it.
* **`within_append`** — what is appended to `root` stays within it, when no name of it is `..`.
* `infix_of_mem_components` — a name of a path stands behind a slash in it.
-/

namespace PerVERT

/-! ## Resolving -/

/-- The names of a path. -/
def components (path : Text) : List Text := path.splitOn '/'

/-- One name of a path. -/
def resolveStep (dirs : List Text) (name : Text) : List Text :=
  if name = [] ∨ name = ['.'] then dirs
  else if name = ['.', '.'] then dirs.dropLast
  else dirs ++ [name]

/-- The directories from the top to what an absolute path stands for. -/
def resolve (path : Text) : List Text := (components path).foldl resolveStep []

/-- The path leads to `root` or below it. -/
def Within (root path : Text) : Prop := resolve root <+: resolve path

instance (root path : Text) : Decidable (Within root path) :=
  inferInstanceAs (Decidable (_ <+: _))

section Components

variable {s t name : Text} {names dirs : List Text}

lemma components_append_slash (s t : Text) :
    components (s ++ '/' :: t) = components s ++ components t :=
  List.splitOn_append_cons_self s t

lemma components_cons_slash (t : Text) : components ('/' :: t) = [] :: components t := by
  simpa [components] using components_append_slash [] t

lemma resolve_append_slash (s t : Text) :
    resolve (s ++ '/' :: t) = (components t).foldl resolveStep (resolve s) := by
  simp only [resolve, components_append_slash, List.foldl_append]

/-- A name other than `..` leads down or nowhere. -/
lemma prefix_resolveStep (h : name ≠ ['.', '.']) : dirs <+: resolveStep dirs name := by
  simp only [resolveStep, h, if_false]
  split_ifs
  · exact List.prefix_refl _
  · exact List.prefix_append _ _

/-- So do several of them. -/
lemma prefix_foldl_resolveStep (h : ['.', '.'] ∉ names) :
    dirs <+: names.foldl resolveStep dirs := by
  induction names generalizing dirs with
  | nil => exact List.prefix_refl _
  | cons name names ih =>
      simp only [List.mem_cons, not_or] at h
      exact (prefix_resolveStep (Ne.symm h.1)).trans (ih h.2)

/-- **Below a root.**  What is appended with a slash, and has no name `..`, stays within. -/
theorem within_append (root : Text) (h : ['.', '.'] ∉ components ('/' :: t)) :
    Within root (root ++ '/' :: t) := by
  rw [components_cons_slash, List.mem_cons, not_or] at h
  rw [Within, resolve_append_slash]
  exact prefix_foldl_resolveStep h.2

lemma infix_cons_intercalate (h : name ∈ names) :
    '/' :: name <:+: '/' :: ['/'].intercalate names := by
  induction names with
  | nil => simp at h
  | cons first rest ih =>
      cases rest with
      | nil =>
          simp only [List.mem_singleton] at h
          simp [h]
      | cons second rest =>
          have hsplit : '/' :: ['/'].intercalate (first :: second :: rest)
              = ('/' :: first) ++ '/' :: ['/'].intercalate (second :: rest) := by
            simp [List.intercalate]
          rw [hsplit]
          rcases List.mem_cons.mp h with rfl | hrest
          · exact (List.prefix_append _ _).isInfix
          · exact (ih hrest).trans (List.suffix_append _ _).isInfix

/-- **A name** of a path has a slash before it. -/
theorem infix_of_mem_components (h : name ∈ components s) : '/' :: name <:+: '/' :: s := by
  simpa only [components, List.intercalate_splitOn] using infix_cons_intercalate h

end Components

example : resolve "/srv/app/../frontend//js/./x.js".toList
    = ["srv".toList, "frontend".toList, "js".toList, "x.js".toList] := by decide

end PerVERT
