import Mathlib.Data.List.Nodup
import Vicinity.Bundle.Merge
import Vicinity.Proofs.Bundle.Packages

/-!
# Merging in groups

Bundles may be merged in groups and the results merged again. Every field has a way of its own to be
merged: the first value, the first one that is not blank, the texts with a separator between, the
languages read out of a comma-separated text and written back, the packages with their latest versions,
the first unit of each declaration, the union of the files. For each of them the module shows what the
merged bundle holds, and that merging the merged values of several groups gives the same.

## What is proved

* `joinTexts_map_joinTexts`, `languageIds_intercalate`, `pathSet_congr`: texts, languages and sets of
  paths that have been put together in groups.
* `merge_map_merge`, `merge_merge`: merged groups merge to what the bundles themselves merge to, and a
  merged bundle to itself.
-/

namespace Vicinity

/-! ### Sets of paths -/

/-- A set of paths is told by its members. -/
theorem pathSet_congr {paths more : List String} (h : ∀ path, path ∈ paths ↔ path ∈ more) :
    pathSet paths = pathSet more := by
  have hperm : (pathSet paths).Perm (pathSet more) := by
    refine (List.perm_ext_iff_of_nodup (nodup_pathSet _) (nodup_pathSet _)).mpr fun path => ?_
    rw [mem_pathSet, mem_pathSet, h]
  exact hperm.eq_of_pairwise (fun a b _ _ => String.le_antisymm) (sorted_pathSet paths)
    (sorted_pathSet more)

/-! ### Texts -/

theorem hasText_iff {s : String} : hasText s ↔ ∃ c ∈ s.toList, Text.isBlank c = false := by
  simp [hasText, Text.allBlank]

theorem hasText_append {s t : String} : hasText (s ++ t) ↔ hasText s ∨ hasText t := by
  simp [hasText_iff, or_and_right, exists_or]

/-- Joined texts hold more than blanks unless there is none. -/
theorem hasText_joinTexts (separator : String) (texts : List String) :
    hasText (joinTexts separator texts) ↔ texts.filter hasText ≠ [] := by
  unfold joinTexts
  cases hkept : texts.filter hasText with
  | nil => simp [hasText_iff]
  | cons text more =>
    have htext : hasText text := (List.mem_filter.mp (hkept ▸ List.mem_cons_self)).2
    have hjoined : hasText (separator.intercalate (text :: more)) := by
      rcases more with _ | ⟨next, more⟩
      · rwa [String.intercalate_singleton]
      · rw [String.intercalate_cons_cons, hasText_append, hasText_append]
        exact .inl (.inl htext)
    simp [hjoined]

/-- Texts joined to texts: the separator stands between them if both have some. -/
theorem joinTexts_append (separator : String) (texts more : List String) :
    joinTexts separator (texts ++ more) =
      if hasText (joinTexts separator texts) then
        if hasText (joinTexts separator more) then
          joinTexts separator texts ++ separator ++ joinTexts separator more
        else joinTexts separator texts
      else joinTexts separator more := by
  simp only [hasText_joinTexts]
  unfold joinTexts
  rw [List.filter_append]
  by_cases htexts : texts.filter hasText = []
  · simp [htexts]
  · by_cases hmore : more.filter hasText = []
    · simp [htexts, hmore]
    · rw [if_pos htexts, if_pos hmore, String.intercalate_append_of_ne_nil htexts hmore]

theorem joinTexts_singleton (separator : String) (texts : List String) :
    joinTexts separator [joinTexts separator texts] = joinTexts separator texts := by
  by_cases h : hasText (joinTexts separator texts)
  · calc joinTexts separator [joinTexts separator texts]
        = separator.intercalate [joinTexts separator texts] :=
          congrArg separator.intercalate (List.filter_cons_of_pos h)
      _ = joinTexts separator texts := String.intercalate_singleton
  · have hnone : texts.filter hasText = [] := by
      simpa [hasText_joinTexts] using h
    calc joinTexts separator [joinTexts separator texts]
        = separator.intercalate [] := congrArg separator.intercalate (List.filter_cons_of_neg h)
      _ = joinTexts separator texts := by rw [joinTexts, hnone]

/-- Joining several texts beforehand changes nothing. -/
theorem joinTexts_map_joinTexts (separator : String) (parts : List (List String)) :
    joinTexts separator (parts.map (joinTexts separator)) = joinTexts separator parts.flatten := by
  induction parts with
  | nil => rfl
  | cons part parts ih =>
    calc joinTexts separator ((part :: parts).map (joinTexts separator))
        = joinTexts separator ([joinTexts separator part] ++ parts.map (joinTexts separator)) := rfl
      _ = joinTexts separator (part ++ parts.flatten) := by
          rw [joinTexts_append, joinTexts_append separator part, joinTexts_singleton, ih]

/-! ### Languages -/

theorem languageIds_spec {s id : String} (h : id ∈ languageIds s) :
    id ≠ "" ∧ Text.trim id.toList = id.toList ∧ ',' ∉ id.toList := by
  unfold languageIds at h
  obtain ⟨piece, hpiece, rfl⟩ := List.mem_map.mp h
  obtain ⟨hmem, hne⟩ := List.mem_filter.mp hpiece
  obtain ⟨whole, hwhole, rfl⟩ := List.mem_map.mp hmem
  rw [String.toList_ofList]
  refine ⟨fun hempty => ?_, Text.trim_trim whole, fun hcomma => ?_⟩
  · have := congrArg String.toList hempty
    rw [String.toList_ofList] at this
    simp [this] at hne
  · exact Text.not_mem_of_mem_splitOn hwhole (Text.mem_of_mem_trim hcomma)

/-- Identifiers of languages that have been joined are read back. -/
theorem languageIds_intercalate {ids : List String}
    (h : ∀ id ∈ ids, id ≠ "" ∧ Text.trim id.toList = id.toList ∧ ',' ∉ id.toList) :
    languageIds (",".intercalate ids) = ids := by
  by_cases hids : ids = []
  · subst hids
    rfl
  have hpieces : Text.splitOn ',' (",".intercalate ids).toList = ids.map String.toList := by
    rw [String.toList_intercalate]
    refine Text.splitOn_joinWith (by simpa using hids) fun piece hpiece => ?_
    obtain ⟨id, hid, rfl⟩ := List.mem_map.mp hpiece
    exact (h id hid).2.2
  have htrim : (ids.map String.toList).map Text.trim = ids.map String.toList := by
    rw [List.map_map]
    exact List.map_congr_left fun id hid => (h id hid).2.1
  have hfilter : (ids.map String.toList).filter (!·.isEmpty) = ids.map String.toList := by
    refine List.filter_eq_self.mpr fun piece hpiece => ?_
    obtain ⟨id, hid, rfl⟩ := List.mem_map.mp hpiece
    simpa using (h id hid).1
  unfold languageIds
  rw [hpieces, htrim, hfilter, List.map_map]
  simp [Function.comp_def]

/-! ### The fields of a merged bundle -/

namespace Bundle

attribute [ext] Bundle

section Fields

variable (bundles : List Bundle)

@[simp] theorem sourceFile_merge :
    (merge bundles).sourceFile = (bundles.head?.map (·.sourceFile)).getD "" := by
  cases bundles <;> rfl

@[simp] theorem line_merge : (merge bundles).line = (bundles.head?.map (·.line)).getD 0 := by
  cases bundles <;> rfl

@[simp] theorem focusLines_merge :
    (merge bundles).focusLines = joinTexts "\n" (bundles.map (·.focusLines)) := by
  cases bundles <;> rfl

@[simp] theorem errorMessage_merge :
    (merge bundles).errorMessage =
      if (joinTexts "; " (bundles.filterMap (·.errorMessage))).isEmpty then none
      else some (joinTexts "; " (bundles.filterMap (·.errorMessage))) := by
  cases bundles <;> rfl

@[simp] theorem languageId_merge :
    (merge bundles).languageId =
      ",".intercalate (firstByKey id (bundles.flatMap fun b => languageIds b.languageId)) := by
  cases bundles <;> rfl

@[simp] theorem runtimeVersion_merge :
    (merge bundles).runtimeVersion =
      (bundles.filterMap (·.runtimeVersion)).find? (!·.isEmpty) := by
  cases bundles <;> rfl

@[simp] theorem packages_merge :
    (merge bundles).packages = Packages.update [] (bundles.flatMap (·.packages)) := by
  have hfold : (merge bundles).packages =
      bundles.foldl (fun packages b => Packages.update packages b.packages) [] := by
    cases bundles <;> rfl
  rw [hfold]
  unfold Packages.update
  rw [List.foldl_flatMap]

@[simp] theorem function_merge :
    (merge bundles).function = (bundles.filterMap (·.function)).find? fun u => hasText u.text := by
  cases bundles <;> rfl

@[simp] theorem referencedFunctions_merge :
    (merge bundles).referencedFunctions = dedupeUnits (bundles.flatMap (·.referencedFunctions)) := by
  cases bundles <;> rfl

@[simp] theorem typeDefinitions_merge :
    (merge bundles).typeDefinitions = dedupeDeclarations (bundles.flatMap (·.typeDefinitions)) := by
  cases bundles <;> rfl

@[simp] theorem touchedFiles_merge :
    (merge bundles).touchedFiles = pathSet (bundles.flatMap (·.touchedFiles)) := by
  cases bundles with
  | nil => simp [merge, pathSet, sortedTexts]
  | cons => rfl

@[simp] theorem fileTree_merge :
    (merge bundles).fileTree =
      (bundles.filterMap (·.fileTree)).find? fun tree => !tree.children.isEmpty := by
  cases bundles <;> rfl

end Fields

/-! ### Each field of merged merges -/

variable (parts : List (List Bundle))

theorem head?_map_merge (h : ∀ part ∈ parts, part ≠ []) {α : Type} (field : Bundle → α) (default : α)
    (hfield : ∀ bundles, field (merge bundles) = (bundles.head?.map field).getD default) :
    ((parts.map merge).head?.map field).getD default =
      (parts.flatten.head?.map field).getD default := by
  cases parts with
  | nil => rfl
  | cons part parts =>
    obtain ⟨first, rest, rfl⟩ := List.exists_cons_of_ne_nil (h part List.mem_cons_self)
    simpa using hfield (first :: rest)

/-- The first value that passes a test is the first one among the first ones of several lists. -/
theorem find?_map_find? {α : Type} (field : Bundle → Option α) (test : α → Bool)
    (hfield : ∀ bundles, field (merge bundles) = (bundles.filterMap field).find? test) :
    ((parts.map merge).filterMap field).find? test = (parts.flatten.filterMap field).find? test := by
  induction parts with
  | nil => rfl
  | cons part parts ih =>
    rw [List.map_cons, List.flatten_cons, List.filterMap_append, List.find?_append, ← ih]
    cases hpart : (part.filterMap field).find? test with
    | none => rw [List.filterMap_cons_none ((hfield part).trans hpart), Option.none_or]
    | some a =>
      rw [List.filterMap_cons_some ((hfield part).trans hpart),
        List.find?_cons_of_pos (List.find?_some hpart), Option.some_or]

theorem flatMap_flatten {α : Type} (field : Bundle → List α) :
    parts.flatten.flatMap field = (parts.map (List.flatMap field)).flatten := by
  induction parts with
  | nil => rfl
  | cons part parts ih => rw [List.flatten_cons, List.flatMap_append, ih]; rfl

theorem flatMap_map_merge {α : Type} (field : Bundle → List α) (reduce : List α → List α)
    (hfield : ∀ bundles, field (merge bundles) = reduce (bundles.flatMap field)) :
    (parts.map merge).flatMap field = (parts.map (List.flatMap field)).flatMap reduce := by
  rw [List.flatMap_map, List.flatMap_map]
  exact congrArg (List.flatMap · parts) (funext hfield)

theorem firstByKey_map_merge {α κ : Type} [DecidableEq κ] (key : α → κ) (field : Bundle → List α)
    (hfield : ∀ bundles, field (merge bundles) = firstByKey key (bundles.flatMap field)) :
    firstByKey key ((parts.map merge).flatMap field) =
      firstByKey key (parts.flatten.flatMap field) := by
  rw [flatMap_map_merge parts field _ hfield, firstByKey_flatMap_firstByKey, flatMap_flatten]

theorem focusLines_map_merge :
    joinTexts "\n" ((parts.map merge).map (·.focusLines)) =
      joinTexts "\n" (parts.flatten.map (·.focusLines)) := by
  have hparts : (parts.map merge).map (·.focusLines) =
      (parts.map (List.map (·.focusLines))).map (joinTexts "\n") := by
    rw [List.map_map, List.map_map]
    exact congrArg (List.map · parts) (funext focusLines_merge)
  rw [hparts, joinTexts_map_joinTexts, List.map_flatten]

/-- A message that is empty and one that is not there are joined alike. -/
theorem errorMessage_map_merge :
    joinTexts "; " ((parts.map merge).filterMap (·.errorMessage)) =
      joinTexts "; " (parts.flatten.filterMap (·.errorMessage)) := by
  have hfilter : ((parts.map merge).filterMap (·.errorMessage)).filter hasText =
      ((parts.map (List.filterMap (·.errorMessage))).map (joinTexts "; ")).filter hasText := by
    induction parts with
    | nil => rfl
    | cons part parts ih =>
      rw [List.map_cons, List.map_cons, List.map_cons]
      by_cases hpart : (joinTexts "; " (part.filterMap (·.errorMessage))).isEmpty
      · have hnone : (merge part).errorMessage = none := by rw [errorMessage_merge, if_pos hpart]
        have hblank : ¬hasText (joinTexts "; " (part.filterMap (·.errorMessage))) := by
          rw [String.isEmpty_iff.mp hpart]
          decide
        rw [List.filterMap_cons_none hnone, List.filter_cons_of_neg hblank, ih]
      · have hsome : (merge part).errorMessage =
            some (joinTexts "; " (part.filterMap (·.errorMessage))) := by
          rw [errorMessage_merge, if_neg hpart]
        rw [List.filterMap_cons_some hsome, List.filter_cons, List.filter_cons, ih]
  calc joinTexts "; " ((parts.map merge).filterMap (·.errorMessage))
      = joinTexts "; " ((parts.map (List.filterMap (·.errorMessage))).map (joinTexts "; ")) :=
        congrArg ("; ".intercalate ·) hfilter
    _ = joinTexts "; " (parts.flatten.filterMap (·.errorMessage)) := by
        rw [joinTexts_map_joinTexts, List.filterMap_flatten]

/-- The identifiers of a merged bundle's languages are those of the bundles, each once. -/
theorem languageIds_merge (bundles : List Bundle) :
    languageIds (merge bundles).languageId =
      firstByKey id (bundles.flatMap fun b => languageIds b.languageId) := by
  rw [languageId_merge]
  refine languageIds_intercalate fun language h => ?_
  obtain ⟨b, -, hb⟩ := List.mem_flatMap.mp ((firstByKey_sublist id _).subset h)
  exact languageIds_spec hb

theorem packages_map_merge (packages : Packages) :
    Packages.update packages ((parts.map merge).flatMap (·.packages)) =
      Packages.update packages (parts.flatten.flatMap (·.packages)) := by
  induction parts generalizing packages with
  | nil => rfl
  | cons part parts ih =>
    rw [List.map_cons, List.flatMap_cons, List.flatten_cons, List.flatMap_append,
      Packages.update_append, Packages.update_append, packages_merge, Packages.update_update_nil, ih]

theorem touchedFiles_map_merge :
    pathSet ((parts.map merge).flatMap (·.touchedFiles)) =
      pathSet (parts.flatten.flatMap (·.touchedFiles)) := by
  refine pathSet_congr fun path => ?_
  rw [flatMap_map_merge parts _ _ touchedFiles_merge, flatMap_flatten, List.mem_flatMap,
    List.mem_flatten]
  simp only [mem_pathSet]

theorem merge_map_merge (h : ∀ part ∈ parts, part ≠ []) :
    merge (parts.map merge) = merge parts.flatten := by
  apply Bundle.ext
  case sourceFile => simpa using head?_map_merge parts h (·.sourceFile) "" sourceFile_merge
  case line => simpa using head?_map_merge parts h (·.line) 0 line_merge
  case focusLines => simpa using focusLines_map_merge parts
  case errorMessage => rw [errorMessage_merge, errorMessage_merge, errorMessage_map_merge]
  case languageId =>
    rw [languageId_merge, languageId_merge,
      firstByKey_map_merge parts id (fun b => languageIds b.languageId) languageIds_merge]
  case runtimeVersion =>
    simpa using find?_map_find? parts (·.runtimeVersion) (!·.isEmpty) runtimeVersion_merge
  case packages => simpa using packages_map_merge parts []
  case function => simpa using find?_map_find? parts (·.function) _ function_merge
  case referencedFunctions =>
    rw [referencedFunctions_merge, referencedFunctions_merge]
    exact firstByKey_map_merge parts CodeUnit.identity _ referencedFunctions_merge
  case typeDefinitions =>
    rw [typeDefinitions_merge, typeDefinitions_merge]
    exact firstByKey_map_merge parts TypeEntry.identity _ typeDefinitions_merge
  case touchedFiles => simpa using touchedFiles_map_merge parts
  case fileTree => simpa using find?_map_find? parts (·.fileTree) _ fileTree_merge

theorem merge_merge (bundles : List Bundle) : merge [merge bundles] = merge bundles := by
  cases bundles with
  | nil =>
    have htouched : (merge [merge []]).touchedFiles = [] := by simp [pathSet, sortedTexts]
    exact Bundle.ext rfl rfl rfl rfl rfl rfl rfl rfl rfl rfl htouched rfl
  | cons b more => simpa using merge_map_merge [b :: more] (by simp)

/-- **Merging is hierarchical**: bundles may be merged in groups, none of them empty, and the results
merged again. In particular merging a merged bundle alone changes nothing. -/
theorem merge_hierarchical (h : ∀ part ∈ parts, part ≠ []) :
    merge (parts.map merge) = merge parts.flatten ∧
      ∀ bundles : List Bundle, merge [merge bundles] = merge bundles :=
  ⟨merge_map_merge parts h, merge_merge⟩

/-- Bundles in two groups, with blanks, commas and empty values. -/
def twoGroups : List (List Bundle) :=
  [[{ languageId := " go , ,python", errorMessage := some " ", packages := [("a", "1"), ("b", "1")],
      touchedFiles := ["/b", "/a"] },
    { focusLines := "\t", languageId := "python", packages := [("c", "1"), ("a", "2")] }],
   [{ focusLines := "x", errorMessage := some "late", languageId := "go,c", packages := [("b", "3")],
      touchedFiles := ["/a"] }]]

theorem merge_twoGroups :
    (∀ part ∈ twoGroups, part ≠ []) ∧
      merge (twoGroups.map merge) = merge twoGroups.flatten ∧
      (merge twoGroups.flatten).focusLines = "x" ∧
      (merge twoGroups.flatten).errorMessage = some "late" ∧
      (merge twoGroups.flatten).languageId = "go,python,c" ∧
      (merge twoGroups.flatten).packages = [("a", "2"), ("b", "3"), ("c", "1")] ∧
      (merge twoGroups.flatten).touchedFiles = ["/a", "/b"] := by
  have hne : ∀ part ∈ twoGroups, part ≠ [] := by simp [twoGroups]
  refine ⟨hne, (merge_hierarchical twoGroups hne).1, ?_, ?_, ?_, ?_, ?_⟩
  · decide +kernel
  · decide +kernel
  · decide +kernel
  · decide
  · have hfiles : (merge twoGroups.flatten).touchedFiles = pathSet ["/b", "/a", "/a"] := rfl
    have hsame : pathSet ["/b", "/a", "/a"] = pathSet ["/a", "/b"] :=
      pathSet_congr fun path => by simp [or_comm]
    rw [hfiles, hsame, pathSet_of_sorted (by decide) (by decide)]

end Bundle

end Vicinity
