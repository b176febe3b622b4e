import LoadReplay.Proofs.Disk.Path
import LoadReplay.Proofs.Except
import LoadReplay.Proofs.Text.Utf8

/-!
# What an operation changes

An operation on a path works on what stands at the place of the path: where it is done, the disk
afterwards is told by the node at every place. Making directories only ever puts directories where
nothing stood, on the way to the last of them (`grown_makeParts`). A path that led to a place still
leads there as long as no directory is lost (`locate_of_directories`).
-/

namespace LoadReplay.Disk

variable {d d' : Disk} {path : String} {place : Place} {node : Node}

/-! ## Nodes -/

theorem ne_nil_of_node? (h : d.node? place ≠ some .directory) : place ≠ [] :=
  fun hplace => h (if_pos hplace)

theorem lookup_filter_ne (entries : List (Place × Node)) (place other : Place) :
    (entries.filter (·.1 ≠ place)).lookup other =
      if other = place then none else entries.lookup other := by
  induction entries with
  | nil => simp
  | cons entry entries ih =>
    by_cases hentry : entry.1 = place
    · rw [List.filter_cons_of_neg (by simpa using hentry), ih, List.lookup_cons]
      split
      · rfl
      next hother => rw [beq_false_of_ne (hentry ▸ hother)]
    · rw [List.filter_cons_of_pos (by simpa using hentry), List.lookup_cons, List.lookup_cons, ih]
      split <;> split <;> simp_all

theorem node?_put (h : place ≠ []) (other : Place) :
    (d.put place node).node? other = if other = place then some node else d.node? other := by
  rw [node?, node?]
  by_cases hnil : other = []
  · rw [if_pos hnil, if_pos hnil, if_neg (hnil ▸ h.symm)]
  · rw [if_neg hnil, if_neg hnil, put, List.lookup_append, lookup_filter_ne]
    by_cases hother : other = place
    · simp [hother]
    · simp [hother, List.lookup_cons, beq_false_of_ne hother]

theorem node?_clear (h : place ≠ []) (other : Place) :
    (d.clear place).node? other = if other = place then none else d.node? other := by
  rw [node?, node?]
  by_cases hnil : other = []
  · rw [if_pos hnil, if_pos hnil, if_neg (hnil ▸ h.symm)]
  · rw [if_neg hnil, if_neg hnil, clear, lookup_filter_ne]

/-! ## The device -/

theorem permit_congr (h : d'.device = d.device) (step : FileStep) :
    d'.permit step = d.permit step := by
  rw [permit, permit, h]

@[simp]
theorem permit_put (step : FileStep) : (d.put place node).permit step = d.permit step := rfl

/-! ## Places of paths -/

theorem enter_eq_ok {name : String} {new : Place} (h : d.enter place name = .ok new) :
    d.node? place = some .directory ∧ new = Path.follow place name := by
  rw [enter] at h
  split at h
  · cases h
  · cases h
  next hnode =>
    refine ⟨hnode, ?_⟩
    rw [Path.follow]
    split at h
    next hdot => rw [if_pos hdot, ← Except.ok.inj h]
    next hdot =>
      rw [if_neg hdot]
      split at h
      next hup => rw [if_pos hup, ← Except.ok.inj h]
      next hup =>
        rw [if_neg hup]
        split at h
        · cases h
        · exact (Except.ok.inj h).symm

theorem enter_of_directory {name : String} (h : d.node? place = some .directory)
    (h' : d'.node? place = some .directory) : d'.enter place name = d.enter place name := by
  simp only [enter, h, h']

theorem foldlM_enter_eq_ok {names : List String} {start : Place}
    (h : names.foldlM d.enter start = .ok place) : place = names.foldl Path.follow start := by
  induction names generalizing start with
  | nil => exact (Except.ok.inj h).symm
  | cons name names ih =>
    rw [List.foldlM_cons] at h
    obtain ⟨next, hnext, h⟩ := Except.bind_eq_ok_iff.1 h
    rw [List.foldl_cons, ← (enter_eq_ok hnext).2]
    exact ih h

theorem foldlM_enter_of_directories {names : List String} {start : Place}
    (hdirs : ∀ p, d.node? p = some .directory → d'.node? p = some .directory)
    (h : names.foldlM d.enter start = .ok place) : names.foldlM d'.enter start = .ok place := by
  induction names generalizing start with
  | nil => exact h
  | cons name names ih =>
    rw [List.foldlM_cons] at h
    obtain ⟨next, hnext, h⟩ := Except.bind_eq_ok_iff.1 h
    have hstart := (enter_eq_ok hnext).1
    rw [List.foldlM_cons, enter_of_directory hstart (hdirs _ hstart), hnext]
    exact ih h

/-- A path leads to its place, where it leads to one. -/
theorem locate_eq_ok (h : d.locate path = .ok place) : place = placeOf path := by
  rw [locate] at h
  split_ifs at h
  exact foldlM_enter_eq_ok h

theorem locate_of_directories
    (hdirs : ∀ p, d.node? p = some .directory → d'.node? p = some .directory)
    (h : d.locate path = .ok place) : d'.locate path = .ok place := by
  rw [locate] at h ⊢
  split_ifs at h ⊢
  exact foldlM_enter_of_directories hdirs h

/-! ## Operations that are done -/

theorem makeDirectory_eq_ok (h : d.makeDirectory path = .ok d') :
    d.node? (placeOf path) = none ∧ d' = d.put (placeOf path) .directory := by
  obtain ⟨place, hplace, h⟩ := Except.bind_eq_ok_iff.1 h
  obtain rfl := locate_eq_ok hplace
  split at h
  · cases h
  next hnode =>
    obtain ⟨_, -, hput⟩ := Except.map_eq_ok_iff.1 h
    exact ⟨hnode, hput.symm⟩

theorem find_of_file {content : Bytes} (hplace : d.locate path = .ok place)
    (hnode : d.node? place = some (.file content)) (hslash : Path.endsInSlash path = false) :
    d.find path = .ok (.file content) := by
  rw [find, hplace]
  simp [bind, Except.bind, hnode, hslash]

/-- A file that was put where its path leads is found there, as no directory was lost. -/
theorem find_of_put {content : Bytes} (hplace : d.locate path = .ok place)
    (hput : d'.node? place = some (.file content))
    (hdirs : ∀ p, p ≠ place → d.node? p = some .directory → d'.node? p = some .directory)
    (hfree : d.node? place ≠ some .directory) (hslash : Path.endsInSlash path = false) :
    d'.find path = .ok (.file content) := by
  refine find_of_file (locate_of_directories (fun p hp => hdirs p ?_ hp) hplace) hput hslash
  rintro rfl
  exact hfree hp

/-- What was encoded into a file is read from it. -/
theorem readText_of_find {text : List Char} (h : d.find path = .ok (.file (Utf8.encode text))) :
    d.readText path = .ok text := by
  rw [readText, h]
  simp [bind, Except.bind, Utf8.decode?_encode]

theorem filePlace_eq_ok (h : d.filePlace path = .ok place) :
    d.locate path = .ok place ∧ place = placeOf path ∧ Path.endsInSlash path = false ∧
      d.node? place ≠ some .directory := by
  obtain ⟨place', hplace, h⟩ := Except.bind_eq_ok_iff.1 h
  obtain rfl := locate_eq_ok hplace
  split at h
  · cases h
  next hslash =>
    split at h
    · cases h
    next hnode =>
      cases h
      exact ⟨hplace, rfl, Bool.eq_false_iff.2 hslash, hnode⟩

/-- What is put where a file may stand is found there. -/
theorem find_put_of_filePlace (h : d.filePlace path = .ok place) (content : Bytes) :
    (d.put place (.file content)).find path = .ok (.file content) := by
  obtain ⟨hplace, -, hslash, hfree⟩ := filePlace_eq_ok h
  have hput (p : Place) : (d.put place (.file content)).node? p =
      if p = place then some (.file content) else d.node? p := node?_put (ne_nil_of_node? hfree) p
  refine find_of_put hplace ?_ (fun p hne hp => ?_) hfree hslash
  · rw [hput, if_pos rfl]
  · rw [hput, if_neg hne, hp]

theorem find_eq_file {content : Bytes} (h : d.find path = .ok (.file content)) :
    d.locate path = .ok (placeOf path) ∧ d.node? (placeOf path) = some (.file content) ∧
      Path.endsInSlash path = false := by
  obtain ⟨place, hplace, h⟩ := Except.bind_eq_ok_iff.1 h
  obtain rfl := locate_eq_ok hplace
  split at h
  · cases h
  · cases h
  next hnode =>
    split at h
    · cases h
    next hslash =>
      cases h
      exact ⟨hplace, hnode, Bool.eq_false_iff.2 hslash⟩

theorem removeFile_of_find {content : Bytes} (h : d.find path = .ok (.file content)) :
    d.removeFile path = (d.permit .remove).map fun () => d.clear (placeOf path) := by
  rw [removeFile, (find_eq_file h).1, h]
  rfl

/-- A device that refuses to remove files keeps them. -/
theorem removeFile_of_refused {fault : DiskFault} (h : d.permit .remove = .error fault) :
    (d.removeFile path).toOption = none := by
  cases hremove : d.removeFile path with
  | error fault => rfl
  | ok after =>
    obtain ⟨_, -, hfind⟩ := Except.bind_eq_ok_iff.1 hremove
    obtain ⟨node, hnode, hremoved⟩ := Except.bind_eq_ok_iff.1 hfind
    cases node with
    | directory => cases hremoved
    | file content =>
      rw [removeFile_of_find hnode, h] at hremove
      cases hremove

theorem removeFile_eq_ok (h : d.removeFile path = .ok d') (place : Place) :
    d'.node? place = if place = placeOf path then none else d.node? place := by
  obtain ⟨_, -, hfind⟩ := Except.bind_eq_ok_iff.1 h
  obtain ⟨node, hnode, hremove⟩ := Except.bind_eq_ok_iff.1 hfind
  cases node with
  | directory => cases hremove
  | file content =>
    have hfile : d.node? (placeOf path) ≠ some .directory := by
      rw [(find_eq_file hnode).2.1]
      exact nofun
    rw [removeFile_of_find hnode] at h
    obtain ⟨_, -, rfl⟩ := Except.map_eq_ok_iff.1 h
    rw [node?_clear (ne_nil_of_node? hfile)]

/-- A file that was moved is found at the path that it was moved to. -/
theorem moveFile_eq_ok {source target : String} (h : d.moveFile source target = .ok d') :
    ∃ content, d.node? (placeOf source) = some (.file content) ∧
      d'.find target = .ok (.file content) ∧ ∀ place, d'.node? place =
        if place = placeOf target then some (.file content)
        else if place = placeOf source then none else d.node? place := by
  obtain ⟨old, hold, h⟩ := Except.bind_eq_ok_iff.1 h
  obtain ⟨new, hnew, h⟩ := Except.bind_eq_ok_iff.1 h
  obtain rfl := locate_eq_ok hold
  obtain rfl := locate_eq_ok hnew
  split at h
  · cases h
  split at h
  next content hsource =>
    split at h
    · cases h
    next hslash =>
      have htarget : d.node? (placeOf target) ≠ some .directory ∧
          d' = (d.clear (placeOf source)).put (placeOf target) (.file content) := by
        split at h
        · cases h
        next htarget =>
          obtain ⟨_, -, hmoved⟩ := Except.map_eq_ok_iff.1 h
          exact ⟨htarget, hmoved.symm⟩
      obtain ⟨htarget, rfl⟩ := htarget
      have hsource' : d.node? (placeOf source) ≠ some .directory := by rw [hsource]; exact nofun
      have hmoved (place : Place) :
          ((d.clear (placeOf source)).put (placeOf target) (.file content)).node? place =
            if place = placeOf target then some (.file content)
            else if place = placeOf source then none else d.node? place := by
        rw [node?_put (ne_nil_of_node? htarget), node?_clear (ne_nil_of_node? hsource')]
      simp only [Bool.or_eq_true, not_or, Bool.not_eq_true] at hslash
      refine ⟨content, hsource, find_of_put hnew ?_ (fun p hne hp => ?_) htarget hslash.2, hmoved⟩
      · rw [hmoved, if_pos rfl]
      · have hother : p ≠ placeOf source := by
          rintro rfl
          exact hsource' hp
        rw [hmoved, if_neg hne, if_neg hother, hp]
  · cases h
  · cases h

/-! ## Directories that are made -/

theorem device_makeParts (d : Disk) (names : List String) :
    (d.makeParts names).1.device = d.device := by
  have hmade {d d' : Disk} {path : String} (h : d.makeDirectory path = .ok d') :
      d'.device = d.device := by
    rw [(makeDirectory_eq_ok h).2, put]
  fun_induction makeParts d names with
  | case1 => rfl
  | case2 names _ path d' hd => exact hmade hd
  | case3 names _ path _ _ d' fault hparts ih =>
    rw [hparts] at ih
    exact ih
  | case4 names _ path _ _ d' hparts d'' hd ih =>
    rw [hparts] at ih
    exact (hmade hd).trans ih
  | case5 names _ path _ _ d' hparts fault _ ih =>
    rw [hparts] at ih
    exact ih
  | case6 => rfl

/-- From one disk to the next only directories were made, at some of these places, where nothing
stood. -/
def Grown (places : List Place) (before after : Disk) : Prop :=
  ∀ place, after.node? place = before.node? place ∨
    before.node? place = none ∧ after.node? place = some .directory ∧ place ∈ places

theorem Grown.refl (places : List Place) (d : Disk) : Grown places d d := fun _ => .inl rfl

theorem Grown.trans {places : List Place} {d₁ d₂ d₃ : Disk} (h₁ : Grown places d₁ d₂)
    (h₂ : Grown places d₂ d₃) : Grown places d₁ d₃ := by
  intro place
  rcases h₁ place with h₁ | ⟨hfree, hmade, hplace⟩
  · rw [← h₁]
    exact h₂ place
  · rcases h₂ place with h₂ | ⟨hfree', -, -⟩
    · exact .inr ⟨hfree, h₂.trans hmade, hplace⟩
    · rw [hmade] at hfree'
      cases hfree'

theorem Grown.mono {places places' : List Place} (h : Grown places d d') (hsub : places ⊆ places') :
    Grown places' d d' :=
  fun place => (h place).imp_right fun ⟨hfree, hmade, hplace⟩ => ⟨hfree, hmade, hsub hplace⟩

theorem grown_makeDirectory (h : d.makeDirectory path = .ok d') : Grown [placeOf path] d d' := by
  obtain ⟨hfree, rfl⟩ := makeDirectory_eq_ok h
  have hne : placeOf path ≠ [] := ne_nil_of_node? (by rw [hfree]; exact nofun)
  intro place
  rw [node?_put hne]
  split
  next hplace => exact .inr ⟨hplace ▸ hfree, rfl, List.mem_singleton.2 hplace⟩
  · exact .inl rfl

/-- Whether it succeeds or not, making directories makes some of those on the way. -/
theorem grown_makeParts (d : Disk) {names : List String} (h : ∀ name ∈ names, Path.IsName name) :
    Grown (names.inits.map Path.placeOfNames) d (d.makeParts names).1 := by
  have hmade {names : List String} (h : ∀ name ∈ names, Path.IsName name) {d d' : Disk}
      (hd : d.makeDirectory ("/".intercalate names) = .ok d') :
      Grown (names.inits.map Path.placeOfNames) d d' := by
    refine (grown_makeDirectory hd).mono fun place hplace => ?_
    have hnames : placeOf ("/".intercalate names) = Path.placeOfNames names :=
      congrArg Path.placeOfNames (Path.segments_intercalate h)
    rw [List.mem_singleton.1 hplace, hnames]
    exact List.mem_map_of_mem ((List.mem_inits _ _).2 (List.prefix_refl names))
  have habove {names : List String} (h : ∀ name ∈ names, Path.IsName name) {d' : Disk}
      (ih : (∀ name ∈ names.dropLast, Path.IsName name) →
        Grown (names.dropLast.inits.map Path.placeOfNames) d d') :
      Grown (names.inits.map Path.placeOfNames) d d' := by
    refine (ih fun name hname => h name (List.dropLast_subset _ hname)).mono
      (List.map_subset _ fun start hstart => ?_)
    rw [List.mem_inits] at hstart ⊢
    exact hstart.trans (List.dropLast_prefix names)
  fun_induction makeParts d names with
  | case1 => exact Grown.refl _ d
  | case2 names _ path d' hd => exact hmade h hd
  | case3 names _ path _ _ d' fault hparts ih =>
    rw [hparts] at ih
    exact habove h ih
  | case4 names _ path _ _ d' hparts d'' hd ih =>
    rw [hparts] at ih
    exact (habove h ih).trans (hmade h hd)
  | case5 names _ path _ _ d' hparts fault _ ih =>
    rw [hparts] at ih
    exact habove h ih
  | case6 => exact Grown.refl _ d

end LoadReplay.Disk
