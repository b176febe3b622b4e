import LoadReplay.Proofs.Disk.Change

/-!
# Walking along a path

A path is walked name by name, and every place on the way has to be a directory
(`directory_of_walk`); so does every place above the one that is reached (`directory_above`). Disks
that hold the same on the way lead to the same place or refuse alike (`walk_congr`). Directories
that were made can be walked along (`walk_of_makeParts`).
-/

namespace LoadReplay.Disk

open LoadReplay.Path (follow placeOfNames)

variable {d d' : Disk} {path : String} {names : List String} {start place : Place}

theorem enter_congr {name : String} (h : d'.node? place = d.node? place) :
    d'.enter place name = d.enter place name := by
  rw [enter, enter, h]

/-- Every place from which a walk went on is a directory. -/
theorem directory_of_walk (h : names.foldlM d.enter start = .ok place) {before after : List String}
    {name : String} (hnames : names = before ++ name :: after) :
    d.node? (before.foldl follow start) = some .directory := by
  rw [hnames, List.foldlM_append] at h
  obtain ⟨next, hnext, h⟩ := Except.bind_eq_ok_iff.1 h
  rw [List.foldlM_cons] at h
  obtain ⟨_, hentered, -⟩ := Except.bind_eq_ok_iff.1 h
  rw [← foldlM_enter_eq_ok hnext]
  exact (enter_eq_ok hentered).1

/-- A walk depends on what stands at the places from which it goes on. -/
theorem walk_congr (h : ∀ before name after, names = before ++ name :: after →
      d'.node? (before.foldl follow start) = d.node? (before.foldl follow start)) :
    names.foldlM d'.enter start = names.foldlM d.enter start := by
  induction names generalizing start with
  | nil => rfl
  | cons name names ih =>
    have hstart : d'.enter start name = d.enter start name := enter_congr (h [] name names rfl)
    rw [List.foldlM_cons, List.foldlM_cons, hstart]
    cases hnext : d.enter start name with
    | error fault => rfl
    | ok next =>
      refine ih fun before other after hnames => ?_
      rw [(enter_eq_ok hnext).2]
      exact h (name :: before) other after (congrArg (name :: ·) hnames)

/-- The places above the one that a walk reaches are directories. -/
theorem directory_above (h : names.foldlM d.enter [] = .ok place) {above : Place}
    (habove : above <+: place) (hne : above ≠ place) : d.node? above = some .directory := by
  induction names using List.reverseRecOn generalizing place with
  | nil =>
    cases h
    exact absurd (List.prefix_nil.1 habove) hne
  | append_singleton names name ih =>
    rw [List.foldlM_append] at h
    obtain ⟨last, hlast, h⟩ := Except.bind_eq_ok_iff.1 h
    obtain ⟨hdir, rfl⟩ : d.node? last = some .directory ∧ place = follow last name := by
      rw [List.foldlM_cons] at h
      obtain ⟨_, hentered, h⟩ := Except.bind_eq_ok_iff.1 h
      cases h
      exact enter_eq_ok hentered
    have hle : above <+: last → d.node? above = some .directory := fun hprefix =>
      if heq : above = last then heq ▸ hdir else ih hlast hprefix heq
    rw [follow] at habove hne
    split_ifs at habove hne
    · exact hle habove
    · exact hle (habove.trans (List.dropLast_prefix _))
    · exact hle ((List.prefix_concat_iff.1 habove).resolve_left hne)

/-- A walk that ends in dots ends at a directory. -/
theorem directory_of_dots {name : String} (h : (names ++ [name]).foldlM d.enter [] = .ok place)
    (hdots : Path.isDotName name = true) : d.node? place = some .directory := by
  rw [List.foldlM_append] at h
  obtain ⟨last, hlast, h⟩ := Except.bind_eq_ok_iff.1 h
  rw [List.foldlM_cons] at h
  obtain ⟨_, hentered, h⟩ := Except.bind_eq_ok_iff.1 h
  cases h
  obtain ⟨hdir, rfl⟩ := enter_eq_ok hentered
  rw [Path.isDotName, Bool.or_eq_true, beq_iff_eq, beq_iff_eq] at hdots
  rw [follow]
  split_ifs with hdot hup
  · exact hdir
  · by_cases hnil : last = []
    · rw [hnil]
      rfl
    · refine directory_above hlast (List.dropLast_prefix _) fun heq => ?_
      have := congrArg List.length heq
      have := List.length_pos_iff.2 hnil
      rw [List.length_dropLast] at *
      omega
  · exact absurd hdots (not_or.2 ⟨hdot, hup⟩)

theorem walk_of_locate (h : d.locate path = .ok place) :
    (Path.segments path).foldlM d.enter [] = .ok place := by
  rw [locate] at h
  split_ifs at h
  exact h

/-- A walk is never refused for leading to a directory. -/
theorem locate_ne_isDirectory : d.locate path ≠ .error .isDirectory := by
  have hwalk (names : List String) (start : Place) :
      names.foldlM d.enter start ≠ .error .isDirectory := by
    induction names generalizing start with
    | nil => rintro ⟨⟩
    | cons name names ih =>
      rw [List.foldlM_cons]
      cases henter : d.enter start name with
      | error fault =>
        rw [enter] at henter
        split at henter
        · cases henter
          rintro ⟨⟩
        · cases henter
          rintro ⟨⟩
        · split_ifs at henter
          cases henter
          rintro ⟨⟩
      | ok next => exact ih next
  rw [locate]
  split_ifs
  · rintro ⟨⟩
  · rintro ⟨⟩
  · rintro ⟨⟩
  · exact hwalk _ _

theorem directory_of_endsInDots (h : d.locate path = .ok place) (hdots : endsInDots path = true) :
    d.node? place = some .directory := by
  have hwalk := walk_of_locate h
  rw [endsInDots] at hdots
  split at hdots
  next name hname =>
    rw [← List.dropLast_append_getLast? _ hname] at hwalk
    exact directory_of_dots hwalk hdots
  next hnone =>
    rw [List.getLast?_eq_none_iff.1 hnone] at hwalk
    cases hwalk
    rfl

/-! ## Files -/

theorem filePlace_eq_error {fault : DiskFault} (h : d.locate path = .error fault) :
    d.filePlace path = .error fault := by
  rw [filePlace, h]
  rfl

theorem filePlace_eq (h : d.locate path = .ok place) :
    d.filePlace path =
      if Path.endsInSlash path = true ∨ d.node? place = some .directory then .error .isDirectory
      else .ok place := by
  rw [filePlace, h]
  change (if Path.endsInSlash path = true then _ else _) = _
  by_cases hslash : Path.endsInSlash path = true
  · rw [if_pos hslash, if_pos (.inl hslash)]
  rw [if_neg hslash]
  split
  next hdir => rw [if_pos (.inr hdir)]
  next hdir => rw [if_neg (not_or.2 ⟨hslash, hdir⟩)]

theorem moveFile_eq_error {source target : String} {old : Place} {fault : DiskFault}
    (hold : d.locate source = .ok old) (hnew : d.locate target = .error fault) :
    d.moveFile source target = .error fault := by
  rw [moveFile, hold, hnew]
  rfl

theorem moveFile_eq {source target : String} {old new : Place} {content : Bytes}
    (hold : d.locate source = .ok old) (hnew : d.locate target = .ok new)
    (hdots : endsInDots source = false) (hslash : Path.endsInSlash source = false)
    (hfile : d.node? old = some (.file content)) :
    d.moveFile source target =
      if endsInDots target = true then .error .busy
      else if Path.endsInSlash target = true then .error .notDirectory
      else if d.node? new = some .directory then .error .isDirectory
      else (d.permit .move).map fun () => (d.clear old).put new (.file content) := by
  rw [moveFile, hold, hnew]
  simp only [bind, Except.bind, hdots, hslash, hfile, Bool.false_or]
  split_ifs with _ _ hdir
  · rfl
  · rfl
  · rw [hdir]
  · split
    next h => exact absurd h hdir
    next => rfl

/-- Where no file can stand, none can be removed. -/
theorem removeFile_of_filePlace {fault : DiskFault} (hslash : Path.endsInSlash path = false)
    (h : d.filePlace path = .error fault) : (d.removeFile path).toOption = none := by
  cases hplace : d.locate path with
  | error fault =>
    rw [removeFile, hplace]
    rfl
  | ok place =>
    have hdir : d.node? place = some .directory := by
      by_contra hdir
      rw [filePlace_eq hplace, if_neg (not_or.2 ⟨Bool.eq_false_iff.1 hslash, hdir⟩)] at h
      cases h
    rw [removeFile, find, hplace]
    simp only [bind, Except.bind, hdir, Except.toOption]

/-! ## Putting and clearing -/

theorem put_put (place : Place) (node other : Node) :
    (d.put place node).put place other = d.put place other := by
  simp [put, List.filter_filter]

theorem clear_put (place : Place) (node : Node) :
    (d.put place node).clear place = d.clear place := by
  simp [put, clear, List.filter_filter]

theorem clear_put_of_ne {other : Place} (h : other ≠ place) (node : Node) :
    (d.put other node).clear place = (d.clear place).put other node := by
  simp [put, clear, List.filter_filter, h, Bool.and_comm]

theorem clear_of_free (hne : place ≠ []) (h : d.node? place = none) : d.clear place = d := by
  rw [node?, if_neg hne, List.lookup_eq_none_iff] at h
  rw [clear, List.filter_eq_self.2]
  intro entry hentry
  have hother := h entry hentry
  rw [bne_iff_ne] at hother
  exact decide_eq_true hother.symm

/-! ## Directories that were made -/

theorem locate_of_makeDirectory (h : d.makeDirectory path = .ok d') :
    d'.locate path = .ok (placeOf path) ∧ d'.node? (placeOf path) = some .directory := by
  obtain ⟨hfree, rfl⟩ := makeDirectory_eq_ok h
  obtain ⟨place, hplace, -⟩ := Except.bind_eq_ok_iff.1 h
  obtain rfl := locate_eq_ok hplace
  have hne : placeOf path ≠ [] := ne_nil_of_node? (by rw [hfree]; exact nofun)
  have hput (other : Place) : (d.put (placeOf path) .directory).node? other =
      if other = placeOf path then some .directory else d.node? other := node?_put hne other
  refine ⟨locate_of_directories (fun p hp => ?_) hplace, by rw [hput, if_pos rfl]⟩
  rw [hput]
  split_ifs
  · rfl
  · exact hp

theorem locate_of_isDirectory (h : d.isDirectory path = true) :
    d.locate path = .ok (placeOf path) ∧ d.node? (placeOf path) = some .directory := by
  have hfind : d.find path = .ok .directory := by
    rw [isDirectory] at h
    split at h
    next hfind => exact hfind
    · cases h
  obtain ⟨place, hplace, hnode⟩ := Except.bind_eq_ok_iff.1 hfind
  obtain rfl := locate_eq_ok hplace
  refine ⟨hplace, ?_⟩
  split at hnode
  · cases hnode
  next hdir => exact hdir
  · split at hnode <;> cases hnode

/-- Where directories were made, or were there before, one can walk along them. -/
theorem walk_of_makeParts (hnames : ∀ name ∈ names, Path.IsName name)
    (h : d.makeParts names = (d', .ok ())) :
    names.foldlM d'.enter [] = .ok (placeOfNames names) ∧
      d'.node? (placeOfNames names) = some .directory := by
  have hwalk (hlocate : d'.locate ("/".intercalate names) = .ok (placeOf ("/".intercalate names)) ∧
      d'.node? (placeOf ("/".intercalate names)) = some .directory) :
      names.foldlM d'.enter [] = .ok (placeOfNames names) ∧
        d'.node? (placeOfNames names) = some .directory := by
    have hplace : placeOf ("/".intercalate names) = placeOfNames names :=
      congrArg placeOfNames (Path.segments_intercalate hnames)
    have hwalk := walk_of_locate hlocate.1
    rw [Path.segments_intercalate hnames] at hwalk
    exact hplace ▸ ⟨hwalk, hlocate.2⟩
  have hthere {fault : DiskFault}
      (h : (if d'.isDirectory ("/".intercalate names) then Except.ok ()
        else .error fault) = .ok ()) : d'.isDirectory ("/".intercalate names) = true := by
    by_contra hdir
    rw [if_neg hdir] at h
    cases h
  rw [makeParts] at h
  split_ifs at h with hnil
  · cases h
    rw [hnil]
    exact ⟨rfl, rfl⟩
  dsimp only at h
  split at h
  next made hmade =>
    cases h
    exact hwalk (locate_of_makeDirectory hmade)
  · split at h
    · cases h
    · split at h
      next made hmade =>
        cases h
        exact hwalk (locate_of_makeDirectory hmade)
      · obtain ⟨rfl, hdir⟩ := Prod.mk.inj h
        exact hwalk (locate_of_isDirectory (hthere hdir))
  · obtain ⟨rfl, hdir⟩ := Prod.mk.inj h
    exact hwalk (locate_of_isDirectory (hthere hdir))

end LoadReplay.Disk
