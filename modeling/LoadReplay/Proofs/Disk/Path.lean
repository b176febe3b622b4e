import LoadReplay.Disk.Change
import LoadReplay.Proofs.Text.Split
import Mathlib.Data.List.Infix

/-!
# Paths and places

A path is taken apart into names and put together again from them. `placeOfNames` is the place that
some names lead to where every directory on the way is there; the places of the directories above a
path are its `parentPlaces`. A path has its own place among those only if it goes up on the way
(`up_of_placeOf_mem_parentPlaces`).
-/

namespace LoadReplay

namespace Path

/-! ## Names -/

/-- A name that can stand in a path: it is not empty and holds no slash. -/
structure IsName (name : String) : Prop where
  ne_empty : name ≠ ""
  slash_not_mem : '/' ∉ name.toList

theorem isName_of_mem_segments {path name : String} (h : name ∈ segments path) : IsName name := by
  obtain ⟨part, hpart, rfl⟩ := List.mem_map.1 h
  obtain ⟨hmem, hne⟩ := List.mem_filter.1 hpart
  refine ⟨fun hempty => ?_, ?_⟩
  · exact absurd (String.ofList_eq_empty_iff.1 hempty) (of_decide_eq_true hne)
  · rw [String.toList_ofList]
    exact Text.not_mem_of_mem_splitOn hmem

theorem segments_slash (path : String) : segments ("/" ++ path) = segments path := by
  have htext : ("/" ++ path).toList = '/' :: path.toList := String.toList_append
  rw [segments, segments, htext, Text.splitOn, if_pos rfl, List.filter_cons_of_neg (by decide)]

theorem segments_intercalate {names : List String} (h : ∀ name ∈ names, IsName name) :
    segments ("/".intercalate names) = names := by
  by_cases hnil : names = []
  · rw [hnil]
    rfl
  have hslash : ∀ part ∈ names.map String.toList, '/' ∉ part := by
    simpa using fun name hname => (h name hname).slash_not_mem
  have hparts : Text.splitOn '/' ("/".intercalate names).toList = names.map String.toList := by
    rw [String.toList_intercalate]
    exact Text.splitOn_intercalate hslash (by simpa using hnil)
  have hfull : ∀ part ∈ names.map String.toList, decide (part ≠ []) = true := by
    simpa using fun name hname => (h name hname).ne_empty
  rw [segments, hparts, List.filter_eq_self.2 hfull, List.map_map]
  exact (List.map_congr_left fun _ _ => String.ofList_toList).trans (List.map_id _)

theorem root_eq (path : String) : root path = "" ∨ root path = "/" := by
  rw [root]
  split
  · exact .inr rfl
  · exact .inl rfl

theorem segments_join (path : String) {names : List String} (h : ∀ name ∈ names, IsName name) :
    segments (join path names) = names := by
  rw [join]
  rcases root_eq path with hroot | hroot
  · rw [hroot, String.empty_append, segments_intercalate h]
  · rw [hroot, segments_slash, segments_intercalate h]

theorem root_intercalate {names : List String} (h : ∀ name ∈ names, IsName name) :
    root ("/".intercalate names) = "" := by
  refine if_neg fun hhead => ?_
  cases names with
  | nil => exact absurd hhead (by decide)
  | cons name names =>
    obtain ⟨hne, hslash⟩ := h name (List.mem_cons_self ..)
    obtain ⟨c, cs, hname⟩ := List.exists_cons_of_ne_nil (mt String.toList_eq_nil_iff.1 hne)
    have hc : (("/".intercalate (name :: names)).toList).head? = some c := by
      rw [String.toList_intercalate, List.map_cons, hname]
      cases names <;> rfl
    rw [hc, beq_iff_eq, Option.some_inj] at hhead
    exact hslash (by rw [hname, hhead]; exact List.mem_cons_self ..)

theorem root_join (path : String) {names : List String} (h : ∀ name ∈ names, IsName name) :
    root (join path names) = root path := by
  rw [join]
  rcases root_eq path with hroot | hroot
  · rw [hroot, String.empty_append, root_intercalate h]
  · rw [hroot]
    exact if_pos (by rw [String.toList_append]; rfl)

/-! ## Parts -/

theorem parts_of_root {path : String} (h : root path ≠ "") :
    parts path = (segments path).filter (· ≠ ".") := by
  rw [parts]
  cases segments path with
  | nil => rfl
  | cons first rest => exact if_neg h

theorem parts_of_rootless {path : String} (h : root path = "") :
    parts path = (segments path).take 1 ++ (segments path).tail.filter (· ≠ ".") := by
  rw [parts]
  cases segments path with
  | nil => rfl
  | cons first rest => exact if_pos h

theorem filter_parts (path : String) :
    (parts path).filter (· ≠ ".") = (segments path).filter (· ≠ ".") := by
  by_cases h : root path = ""
  · rw [parts_of_rootless h]
    cases segments path with
    | nil => rfl
    | cons first rest => simp [List.filter_cons]
  · rw [parts_of_root h, List.filter_filter]
    simp

theorem dot_not_mem_tail_parts (path : String) : "." ∉ (parts path).tail := by
  by_cases h : root path = ""
  · rw [parts_of_rootless h]
    cases segments path <;> simp
  · rw [parts_of_root h]
    exact fun hmem => by simpa using (List.mem_filter.1 (List.mem_of_mem_tail hmem)).2

theorem mem_segments_of_mem_parts {path name : String} (h : name ∈ parts path) :
    name ∈ segments path := by
  by_cases hroot : root path = ""
  · rw [parts_of_rootless hroot] at h
    rcases List.mem_append.1 h with h | h
    · exact List.mem_of_mem_take h
    · exact List.mem_of_mem_tail (List.mem_filter.1 h).1
  · rw [parts_of_root hroot] at h
    exact (List.mem_filter.1 h).1

theorem isName_of_mem_parts {path name : String} (h : name ∈ parts path) : IsName name :=
  isName_of_mem_segments (mem_segments_of_mem_parts h)

/-- The first parts of a path, put together, are taken apart into the same parts. -/
theorem parts_join {path : String} {names : List String} (h : names <+: parts path) :
    parts (join path names) = names := by
  have hnames : ∀ name ∈ names, IsName name := fun name hname =>
    isName_of_mem_parts (h.subset hname)
  by_cases hroot : root path = ""
  · rw [parts_of_rootless (by rw [root_join path hnames, hroot]), segments_join path hnames]
    cases names with
    | nil => rfl
    | cons first rest =>
      have hrest : ∀ name ∈ rest, decide (name ≠ ".") = true := by
        intro name hname
        obtain ⟨others, hparts⟩ := h
        refine decide_eq_true fun hdot => dot_not_mem_tail_parts path ?_
        rw [← hparts]
        exact List.mem_append_left _ (hdot ▸ hname)
      rw [List.tail_cons, List.filter_eq_self.2 hrest]
      rfl
  · rw [parts_of_root (by rw [root_join path hnames]; exact hroot), segments_join path hnames,
      List.filter_eq_self]
    intro name hname
    have hmem := h.subset hname
    rw [parts_of_root hroot] at hmem
    exact (List.mem_filter.1 hmem).2

/-! ## Places -/

/-- Where a name leads from a place. -/
def follow (place : Place) (name : String) : Place :=
  if name = "." then place else if name = ".." then place.dropLast else place ++ [name]

/-- The place that some names lead to where every directory on the way is there. -/
def placeOfNames (names : List String) : Place := names.foldl follow []

theorem placeOfNames_concat (names : List String) (name : String) :
    placeOfNames (names ++ [name]) = follow (placeOfNames names) name :=
  List.foldl_concat ..

theorem placeOfNames_filter (names : List String) :
    placeOfNames (names.filter (· ≠ ".")) = placeOfNames names := by
  rw [placeOfNames, List.foldl_filter, placeOfNames]
  congr 1
  funext place name
  by_cases h : name = "." <;> simp [follow, h]

theorem placeOfNames_parts (path : String) : placeOfNames (parts path) = Disk.placeOf path := by
  rw [← placeOfNames_filter, filter_parts, placeOfNames_filter]
  rfl

theorem placeOf_join (path : String) {names : List String} (h : ∀ name ∈ names, IsName name) :
    Disk.placeOf (join path names) = placeOfNames names :=
  congrArg placeOfNames (segments_join path h)

/-- Names that never go up spell the place that they lead to, the dots apart. -/
theorem placeOfNames_of_no_up {names : List String} (h : ".." ∉ names) :
    placeOfNames names = names.filter (· ≠ ".") := by
  induction names using List.reverseRecOn with
  | nil => rfl
  | append_singleton names name ih =>
    obtain ⟨hnames, hname⟩ : ".." ∉ names ∧ name ≠ ".." := by simpa [eq_comm] using h
    rw [placeOfNames_concat, ih hnames, follow, if_neg hname, List.filter_append]
    split <;> simp_all

/-- The places of the directories above a path. -/
def parentPlaces (path : String) : List Place := (parts path).dropLast.inits.map placeOfNames

theorem up_of_placeOf_mem_parentPlaces {path : String} (hne : Disk.placeOf path ≠ [])
    (h : Disk.placeOf path ∈ parentPlaces path) : ".." ∈ segments path := by
  by_contra hup
  obtain ⟨names, hnames, heq⟩ := List.mem_map.1 h
  rw [List.mem_inits] at hnames
  have hup' : ".." ∉ parts path := fun hmem => hup (mem_segments_of_mem_parts hmem)
  rw [← placeOfNames_parts, placeOfNames_of_no_up hup'] at heq hne
  rw [placeOfNames_of_no_up fun hmem =>
    hup' (List.dropLast_subset _ (hnames.subset hmem))] at heq
  rcases (parts path).eq_nil_or_concat with hnil | ⟨init, last, hparts⟩
  · exact hne (by rw [hnil]; rfl)
  rw [List.concat_eq_append] at hparts
  rw [hparts, List.dropLast_concat] at hnames
  by_cases hlast : last = "."
  · have htail := dot_not_mem_tail_parts path
    cases init with
    | nil => exact hne (by simp [hparts, hlast])
    | cons first rest => exact htail (by simp [hparts, hlast])
  · have hle := (hnames.filter (· ≠ ".")).length_le
    have hkept : [last].filter (· ≠ ".") = [last] := List.filter_cons_of_pos (decide_eq_true hlast)
    rw [heq, hparts, List.filter_append, hkept, List.length_append] at hle
    exact absurd hle (by simp)

end Path

end LoadReplay
