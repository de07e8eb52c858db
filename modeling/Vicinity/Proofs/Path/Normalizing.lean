import Mathlib.Data.List.Basic
import Vicinity.Proofs.Path.Writing

/-!
# Resolved paths and ways between them

Resolving double dots goes through the names of a path and keeps a list of resolved ones. In an absolute
path no double dot stays in it, so that of two resolved names lists one leads to the other without going
up exactly if it begins with it. The way from a root to a path is written as the rest of the names, unless
it goes up, or only looks as if it did: then the path itself stands for it.

## What is proved

* `mem_normalize`: the resolved names of an absolute path are names of the path, and no double dots.
* `normalize_append`: names are resolved one after the other.
* `steps_append`, `exists_steps_eq_cons`: which ways go up.
* `relativePath_cases`: what stands for a path as seen from a root.
-/

namespace Vicinity.Path

variable {p q root : Path} {names resolved : List String} {name : String}

/-! ### Resolved names -/

theorem push_of_ne {absolute : Bool} (h : name ≠ "..") :
    pushSegment absolute resolved name = resolved ++ [name] := by
  simp [pushSegment, h]

/-- Names without double dots are put one after the other. -/
theorem foldl_push_of_not_mem {absolute : Bool} (h : ".." ∉ names) :
    names.foldl (pushSegment absolute) resolved = resolved ++ names := by
  induction names generalizing resolved with
  | nil => rw [List.foldl_nil, List.append_nil]
  | cons name names ih =>
    rw [List.mem_cons, not_or] at h
    rw [List.foldl_cons, push_of_ne (Ne.symm h.1), ih h.2, List.append_assoc, List.singleton_append]

/-- One more name of an absolute path: a double dot is not put anywhere. -/
theorem mem_push {segment : String} (hresolved : ".." ∉ resolved)
    (h : name ∈ pushSegment true resolved segment) :
    (name ∈ resolved ∨ name = segment) ∧ name ≠ ".." := by
  by_cases hsegment : segment = ".."
  · -- the last of the resolved names is no double dot, so it goes
    have hdropped : name ∈ resolved := by
      rw [pushSegment, if_neg (by simpa using hsegment)] at h
      split at h
      · exact absurd h List.not_mem_nil
      · rename_i hlast
        exact absurd (List.mem_of_getLast? hlast) hresolved
      · exact (List.dropLast_sublist resolved).subset h
    exact ⟨.inl hdropped, fun heq => hresolved (heq ▸ hdropped)⟩
  · rw [push_of_ne hsegment, List.mem_append, List.mem_singleton] at h
    refine ⟨h, fun heq => ?_⟩
    rcases h with h | h
    · exact hresolved (heq ▸ h)
    · exact hsegment (h.symm.trans heq)

theorem mem_foldl_push (hresolved : ".." ∉ resolved)
    (h : name ∈ names.foldl (pushSegment true) resolved) :
    (name ∈ resolved ∨ name ∈ names) ∧ name ≠ ".." := by
  induction names generalizing resolved with
  | nil => exact ⟨.inl h, fun heq => hresolved (heq ▸ h)⟩
  | cons segment names ih =>
    have hpushed : ".." ∉ pushSegment true resolved segment :=
      fun hdots => (mem_push hresolved hdots).2 rfl
    obtain ⟨hname, hne⟩ := ih hpushed h
    refine ⟨?_, hne⟩
    rcases hname with hname | hname
    · rcases (mem_push hresolved hname).1 with hname | rfl
      · exact .inl hname
      · exact .inr List.mem_cons_self
    · exact .inr (List.mem_cons_of_mem _ hname)

/-- **The resolved names of an absolute path** are names of it, and no double dots. -/
theorem mem_normalize (hp : p.isAbsolute) (h : name ∈ p.normalize.segments) :
    name ∈ p.segments ∧ name ≠ ".." := by
  rw [normalize, hp] at h
  obtain ⟨hname, hne⟩ := mem_foldl_push List.not_mem_nil h
  exact ⟨hname.resolve_left List.not_mem_nil, hne⟩

theorem normalize_of_not_mem (h : ".." ∉ p.segments) : p.normalize = p := by
  rw [normalize, foldl_push_of_not_mem h, List.nil_append]

/-! ### Paths in directories -/

theorem append_of_isAbsolute (hq : q.isAbsolute) : p ++ q = q := if_pos hq

theorem append_of_relative (hq : q.slashes = 0) : p ++ q = ⟨p.slashes, p.segments ++ q.segments⟩ :=
  if_neg (by simp [isAbsolute, hq])

/-- **A relative path in a directory** is resolved name by name, after the directory. -/
theorem normalize_append (hq : q.slashes = 0) :
    (p ++ q).normalize =
      ⟨p.slashes, q.segments.foldl (pushSegment p.isAbsolute) p.normalize.segments⟩ := by
  rw [append_of_relative hq, normalize, normalize, List.foldl_append]
  rfl

/-! ### Ways -/

theorem commonStart_append (start rest : List String) : commonStart start (start ++ rest) = start := by
  induction start with
  | nil => rfl
  | cons name start ih => rw [List.cons_append, commonStart, if_pos rfl, ih]

theorem commonStart_isPrefix (start goal : List String) :
    commonStart start goal <+: start ∧ commonStart start goal <+: goal := by
  induction start generalizing goal with
  | nil => exact ⟨List.nil_prefix, List.nil_prefix⟩
  | cons name start ih =>
    cases goal with
    | nil => exact ⟨List.nil_prefix, List.nil_prefix⟩
    | cons other goal =>
      unfold commonStart
      split
      · rename_i heq
        subst heq
        exact ⟨List.cons_prefix_cons.mpr ⟨rfl, (ih goal).1⟩,
          List.cons_prefix_cons.mpr ⟨rfl, (ih goal).2⟩⟩
      · exact ⟨List.nil_prefix, List.nil_prefix⟩

/-- A way to a place below goes down only. -/
theorem steps_append (start rest : List String) : steps start (start ++ rest) = rest := by
  simp [steps, commonStart_append]

/-- Any other way begins with a step up. -/
theorem exists_steps_eq_cons {start goal : List String} (h : ¬start <+: goal) :
    ∃ more, steps start goal = ".." :: more := by
  obtain ⟨hstart, hgoal⟩ := commonStart_isPrefix start goal
  have hlt : (commonStart start goal).length < start.length := by
    refine Nat.lt_of_le_of_ne hstart.length_le fun heq => h ?_
    rwa [hstart.eq_of_length heq] at hgoal
  obtain ⟨n, hn⟩ := Nat.exists_eq_succ_of_ne_zero (Nat.sub_ne_zero_of_lt hlt)
  exact ⟨_, by rw [steps, hn, List.replicate_succ, List.cons_append]⟩

/-- **The way between absolute paths** is a relative path, written as such. -/
theorem wayFrom_of_isAbsolute (hp : p.isAbsolute) (hroot : root.isAbsolute) :
    p.wayFrom root = some (Path.mk 0 (steps root.normalize.segments p.normalize.segments)).render := by
  unfold wayFrom
  simp only [hroot, if_true, append_of_isAbsolute hp, hp, bne_self_eq_false, Bool.false_eq_true,
    if_false]
  cases hsteps : steps root.normalize.segments p.normalize.segments with
  | nil => rfl
  | cons name more => simp [render]

/-- A name that begins with two dots. -/
def BeginsWithDots (name : String) : Prop := ['.', '.'] <+: name.toList

theorem dots_prefix_append_iff {s t : List Char} (hs : s ≠ []) :
    ['.', '.'] <+: s ++ '/' :: t ↔ ['.', '.'] <+: s := by
  rcases s with _ | ⟨c, _ | ⟨d, s⟩⟩
  · exact absurd rfl hs
  · simp
  · simp

/-- A written way begins with two dots exactly if its first name does. -/
theorem dots_prefix_render_iff (hnames : ∀ first ∈ names.head?, first ≠ "") :
    ['.', '.'] <+: (Path.mk 0 names).render.toList ↔ ∃ first ∈ names.head?, BeginsWithDots first := by
  rcases names with _ | ⟨first, more⟩
  · simp [render]
  · have hfirst : first.toList ≠ [] := fun heq => hnames first rfl (String.toList_inj.mp heq)
    rw [toList_render (by simp)]
    cases more with
    | nil => simp [Text.joinWith, BeginsWithDots]
    | cons next more =>
      simp [Text.joinWith, List.intercalate_cons_cons, BeginsWithDots, dots_prefix_append_iff hfirst]

/-! ### Paths as texts -/

/-- The resolved names of a path. -/
def namesOf (path : String) : List String := (parse path).normalize.segments

/-- The resolved names of an absolute path are such as reading gives, and no double dots. -/
theorem mem_namesOf {path : String} (hpath : (parse path).isAbsolute) (h : name ∈ namesOf path) :
    (name ≠ "" ∧ '/' ∉ name.toList ∧ name ≠ ".") ∧ name ≠ ".." := by
  obtain ⟨hname, hne⟩ := mem_normalize hpath h
  exact ⟨mem_segmentsOf hname, hne⟩

theorem isEmpty_of_isAbsolute {path : String} (h : (parse path).isAbsolute) : path.isEmpty = false := by
  rw [Bool.eq_false_iff]
  intro hempty
  rw [String.isEmpty_iff.mp hempty] at h
  revert h
  decide

end Vicinity.Path

namespace Vicinity

open Vicinity.Path

variable {path root : String}

theorem relativePath_of_isAbsolute (hpath : (parse path).isAbsolute) (hroot : (parse root).isAbsolute) :
    relativePath path (some root) =
      let way := (Path.mk 0 (steps (namesOf root) (namesOf path))).render
      if ['.', '.'].isPrefixOf way.toList then path else way := by
  unfold relativePath
  simp only [isEmpty_of_isAbsolute hpath, isEmpty_of_isAbsolute hroot, Bool.or_false,
    Bool.false_eq_true, if_false, wayFrom_of_isAbsolute hpath hroot]
  rfl

/-- **What stands for a path as seen from a root**: the names below the root if they do not begin with two
dots, and otherwise, or if it is not below the root, the path itself. -/
theorem relativePath_cases (hpath : (parse path).isAbsolute) (hroot : (parse root).isAbsolute) :
    (∃ rest, namesOf path = namesOf root ++ rest ∧ ".." ∉ rest ∧
      (∀ first ∈ rest.head?, ¬BeginsWithDots first) ∧
      parse (relativePath path (some root)) = ⟨0, rest⟩) ∨
    (relativePath path (some root) = path ∧ ∀ rest, namesOf path = namesOf root ++ rest →
      ∃ first ∈ rest.head?, BeginsWithDots first) := by
  rw [relativePath_of_isAbsolute hpath hroot]
  by_cases hbelow : namesOf root <+: namesOf path
  · obtain ⟨rest, hrest⟩ := hbelow
    have hmem : ∀ name ∈ rest, (name ≠ "" ∧ '/' ∉ name.toList ∧ name ≠ ".") ∧ name ≠ ".." :=
      fun name h => mem_namesOf hpath (hrest ▸ List.mem_append_right _ h)
    have hread : (Path.mk 0 rest).Read := ⟨Nat.zero_le 2, fun name h => (hmem name h).1⟩
    have hdots := dots_prefix_render_iff fun first h => (hmem first (List.mem_of_mem_head? h)).1.1
    rw [← hrest, steps_append]
    by_cases h : ∃ first ∈ rest.head?, BeginsWithDots first
    · refine .inr ⟨if_pos (List.isPrefixOf_iff_prefix.mpr (hdots.mpr h)), fun other hother => ?_⟩
      rwa [← List.append_cancel_left hother]
    · have hway : ¬['.', '.'].isPrefixOf (Path.mk 0 rest).render.toList := by
        rwa [List.isPrefixOf_iff_prefix, hdots]
      refine .inl ⟨rest, rfl, fun h => (hmem ".." h).2 rfl,
        fun first hfirst hname => h ⟨first, hfirst, hname⟩, ?_⟩
      rw [if_neg hway, parse_render hread]
  · obtain ⟨more, hmore⟩ := exists_steps_eq_cons hbelow
    rw [hmore]
    refine .inr ⟨if_pos ?_, fun rest hrest => absurd ⟨rest, hrest.symm⟩ hbelow⟩
    rw [List.isPrefixOf_iff_prefix, dots_prefix_render_iff (by simp)]
    exact ⟨"..", rfl, List.prefix_rfl⟩

end Vicinity
