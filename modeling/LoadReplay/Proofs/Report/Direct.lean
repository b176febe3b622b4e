import LoadReplay.Proofs.Disk.Walk
import LoadReplay.Proofs.Report.Atomic

/-!
# What shows of the temporary file

A report is written as if it were written at its path at once, without a temporary file beside it,
except for what stood at the place of that file: it is gone afterwards (`emit_as_if_direct`). And
where an `obstacle?` keeps the temporary file from standing there, the report fails although it
could be written at its path. Nothing else on the disk shows that there was a temporary file, unless
the report failed and the device refuses to remove it.
-/

namespace LoadReplay.Report

open Disk (placeOf)
open LoadReplay.Path (placeOfNames)

/-- Puts a report at its path at once, where the device lets each step of writing it be done. -/
def putReport (disk : Disk) (path : String) (records : List Measurement) :
    Except DiskFault Disk := do
  disk.permitAll (writingSteps records)
  disk.putFile path (Utf8.encode (text records))

/-- Makes the directories above a path and puts a report there at once. -/
def writeDirectly (disk : Disk) (path : String) (records : List Measurement) :
    Disk × Except DiskFault Unit :=
  match makeParents disk path with
  | (disk, .error fault) => (disk, .error fault)
  | (disk, .ok ()) =>
    match putReport disk path records with
    | .error fault => (disk, .error fault)
    | .ok written => (written, .ok ())

/-- Why no temporary file can stand beside a path, if none can. -/
def obstacle? (disk : Disk) (path : String) : Option DiskFault :=
  if (temporaryPath path).toList.contains '\x00' then some .nulInPath
  else if Path.maxPathBytes < (temporaryPath path).utf8ByteSize ∨
      Path.maxNameBytes < (temporaryName path).utf8ByteSize then some .nameTooLong
  else if disk.node? (placeOf (temporaryPath path)) = some .directory then some .isDirectory
  else none

/-- How the disk refuses to move a file to a path at which it refuses to put one. -/
def moveFault (path : String) (fault : DiskFault) : DiskFault :=
  if fault = .isDirectory then
    if Disk.endsInDots path then .busy
    else if Path.endsInSlash path then .notDirectory
    else fault
  else fault

/-! ## The path of the temporary file -/

/-- The parts of a path that stay in the path of its temporary file. -/
def keptParts (path : String) : List String :=
  if (Path.fileName? path).isSome then (Path.parts path).dropLast else Path.parts path

theorem temporaryPath_eq (path : String) :
    temporaryPath path = Path.join path (keptParts path ++ [temporaryName path]) := rfl

variable {disk grown : Disk} {path : String} {content : Bytes}

theorem keptParts_subset : keptParts path ⊆ Path.parts path := by
  rw [keptParts]
  split
  · exact List.dropLast_subset _
  · exact List.Subset.refl _

theorem dropLast_parts_prefix (path : String) : (Path.parts path).dropLast <+: keptParts path := by
  rw [keptParts]
  split
  · exact List.prefix_refl _
  · exact List.dropLast_prefix _

theorem isName_of_mem_temporary {name : String}
    (h : name ∈ keptParts path ++ [temporaryName path]) : Path.IsName name := by
  rcases List.mem_append.1 h with h | h
  · exact Path.isName_of_mem_parts (keptParts_subset h)
  · rw [List.mem_singleton.1 h]
    exact isName_temporaryName path

theorem segments_temporaryPath :
    Path.segments (temporaryPath path) = keptParts path ++ [temporaryName path] :=
  Path.segments_join path fun _ => isName_of_mem_temporary

theorem placeOf_temporaryPath :
    placeOf (temporaryPath path) = placeOfNames (keptParts path) ++ [temporaryName path] := by
  rw [temporaryPath_eq, Path.placeOf_join path fun _ => isName_of_mem_temporary,
    Path.placeOfNames_concat, follow_temporaryName]

theorem isDotName_temporaryName (path : String) :
    Path.isDotName (temporaryName path) = false := by
  have hfollow := congrArg List.length (follow_temporaryName [] path)
  by_contra hdots
  rw [Bool.not_eq_false, Path.isDotName, Bool.or_eq_true, beq_iff_eq, beq_iff_eq] at hdots
  rw [Path.follow] at hfollow
  rcases hdots with hdots | hdots <;> simp [hdots] at hfollow

theorem endsInDots_temporaryPath : Disk.endsInDots (temporaryPath path) = false := by
  rw [Disk.endsInDots, segments_temporaryPath, List.getLast?_concat]
  exact isDotName_temporaryName path

theorem exists_eq_append_temporaryName (path : String) :
    ∃ front, temporaryPath path = front ++ temporaryName path := by
  rw [temporaryPath_eq, Path.join]
  by_cases hkept : keptParts path = []
  · exact ⟨Path.root path, by rw [hkept, List.nil_append, String.intercalate_singleton]⟩
  · refine ⟨Path.root path ++ ("/".intercalate (keptParts path) ++ "/"), ?_⟩
    rw [String.intercalate_append_of_ne_nil hkept (List.cons_ne_nil _ _),
      String.intercalate_singleton]
    simp only [String.append_assoc]

theorem endsInSlash_temporaryPath : Path.endsInSlash (temporaryPath path) = false := by
  obtain ⟨front, hfront⟩ := exists_eq_append_temporaryName path
  have htoList : (temporaryPath path).toList =
      (front ++ (Path.fileName? path).getD "").toList ++ ".tmp".toList := by
    rw [hfront, temporaryName, ← String.append_assoc, String.toList_append]
  rw [Path.endsInSlash, htoList, List.getLast?_append]
  rfl

theorem temporaryPath_ne_empty : temporaryPath path ≠ "" := by
  obtain ⟨front, hfront⟩ := exists_eq_append_temporaryName path
  intro hempty
  have hlength := congrArg String.length (hfront.symm.trans hempty)
  rw [String.length_append, length_temporaryName, String.length_empty] at hlength
  omega

/-! ## Creating it -/

/-- Where the directories above a path were made, one can walk to the temporary file. -/
theorem walk_keptParts (h : makeParents disk path = (grown, .ok ())) :
    (keptParts path).foldlM grown.enter [] = .ok (placeOfNames (keptParts path)) ∧
      grown.node? (placeOfNames (keptParts path)) = some .directory := by
  have hparents : (Path.parts path).dropLast.foldlM grown.enter [] =
      .ok (placeOfNames (Path.parts path).dropLast) ∧
        grown.node? (placeOfNames (Path.parts path).dropLast) = some .directory := by
    rw [makeParents, Path.parent?] at h
    cases hparts : Path.parts path with
    | nil => exact ⟨rfl, rfl⟩
    | cons first rest =>
      rw [hparts] at h
      dsimp only at h
      rw [Disk.makeDirectories, ← hparts, Path.parts_join (List.dropLast_prefix _)] at h
      rw [← hparts]
      exact Disk.walk_of_makeParts
        (fun name hname => Path.isName_of_mem_parts (List.dropLast_subset _ hname)) h
  rw [keptParts]
  split
  · exact hparents
  next hname =>
    rcases (Path.parts path).eq_nil_or_concat with hnil | ⟨init, last, hlast⟩
    · rw [hnil]
      exact ⟨rfl, rfl⟩
    · rw [List.concat_eq_append] at hlast
      have hdots : Path.isDotName last = true := by
        rw [Path.fileName?, hlast, List.getLast?_concat] at hname
        by_contra hdots
        exact hname (by simp [hdots])
      rw [hlast, List.dropLast_concat] at hparents
      have hwalk : (init ++ [last]).foldlM grown.enter [] =
          .ok (placeOfNames (init ++ [last])) := by
        rw [List.foldlM_append, hparents.1, Path.placeOfNames_concat]
        rw [Path.isDotName, Bool.or_eq_true, beq_iff_eq, beq_iff_eq] at hdots
        change [last].foldlM grown.enter _ = _
        rw [List.foldlM_cons, Disk.enter, hparents.2, Path.follow]
        rcases hdots with rfl | rfl <;> rfl
      rw [hlast]
      exact ⟨hwalk, Disk.directory_of_dots hwalk hdots⟩

theorem locate_temporaryPath (h : makeParents disk path = (grown, .ok ())) :
    grown.locate (temporaryPath path) =
      if (temporaryPath path).toList.contains '\x00' then .error .nulInPath
      else if Path.maxPathBytes < (temporaryPath path).utf8ByteSize ∨
          Path.maxNameBytes < (temporaryName path).utf8ByteSize then .error .nameTooLong
      else .ok (placeOf (temporaryPath path)) := by
  obtain ⟨hwalk, hdir⟩ := walk_keptParts h
  have hdots := isDotName_temporaryName path
  rw [Path.isDotName, Bool.or_eq_false_iff, beq_eq_false_iff_ne, beq_eq_false_iff_ne] at hdots
  have henter : grown.enter (placeOfNames (keptParts path)) (temporaryName path) =
      if Path.maxNameBytes < (temporaryName path).utf8ByteSize then .error .nameTooLong
      else .ok (placeOfNames (keptParts path) ++ [temporaryName path]) := by
    rw [Disk.enter, hdir]
    simp only [hdots.1, hdots.2, if_false]
  have hfoldlM : (Path.segments (temporaryPath path)).foldlM grown.enter [] =
      grown.enter (placeOfNames (keptParts path)) (temporaryName path) := by
    rw [segments_temporaryPath, List.foldlM_append, hwalk]
    change [temporaryName path].foldlM grown.enter _ = _
    rw [List.foldlM_cons]
    cases grown.enter (placeOfNames (keptParts path)) (temporaryName path) <;> rfl
  rw [Disk.locate, if_neg temporaryPath_ne_empty, hfoldlM, henter, placeOf_temporaryPath]
  by_cases hlong : Path.maxPathBytes < (temporaryPath path).utf8ByteSize
  · simp only [hlong, true_or, if_true]
  · simp only [hlong, false_or, if_false]

theorem placeOf_temporaryPath_ne_nil : placeOf (temporaryPath path) ≠ [] := by
  rw [placeOf_temporaryPath]
  exact List.append_ne_nil_of_right_ne_nil _ (List.cons_ne_nil _ _)

theorem filePlace_temporaryPath (h : makeParents disk path = (grown, .ok ())) :
    grown.filePlace (temporaryPath path) =
      match obstacle? grown path with
      | some fault => .error fault
      | none => .ok (placeOf (temporaryPath path)) := by
  have hlocate := locate_temporaryPath h
  rw [obstacle?]
  split_ifs at hlocate ⊢ with hnul hlong hdir
  · exact Disk.filePlace_eq_error hlocate
  · exact Disk.filePlace_eq_error hlocate
  · rw [Disk.filePlace_eq hlocate, if_pos (.inr hdir)]
  · rw [Disk.filePlace_eq hlocate, endsInSlash_temporaryPath,
      if_neg (not_or.2 ⟨Bool.false_ne_true, hdir⟩)]

/-- Where the temporary file cannot stand, there is none to remove. -/
theorem cleared_of_obstacle {fault : DiskFault} (h : makeParents disk path = (grown, .ok ()))
    (hobstacle : obstacle? grown path = some fault) : cleared grown path = grown := by
  have hplace := filePlace_temporaryPath h
  rw [hobstacle] at hplace
  rw [cleared, Disk.removeFile_of_filePlace endsInSlash_temporaryPath hplace]
  rfl

theorem not_directory_of_obstacle (h : obstacle? grown path = none) :
    grown.node? (placeOf (temporaryPath path)) ≠ some .directory := by
  rw [obstacle?] at h
  split_ifs at h with _ _ hdir
  exact hdir

/-! ## Moving it -/

theorem directory_of_prefix (h : makeParents disk path = (grown, .ok ())) {names : List String}
    (hnames : names <+: keptParts path) : grown.node? (placeOfNames names) = some .directory := by
  obtain ⟨hwalk, hdir⟩ := walk_keptParts h
  obtain ⟨after, hafter⟩ := hnames
  cases after with
  | nil =>
    rw [List.append_nil] at hafter
    exact hafter ▸ hdir
  | cons name after => exact Disk.directory_of_walk hwalk hafter.symm

/-- On the way to a path there are directories, up to the place of the path. -/
theorem directory_on_the_way (h : makeParents disk path = (grown, .ok ())) {names : List String}
    (hnames : names <+: Path.segments path) (hne : placeOfNames names ≠ placeOf path) :
    grown.node? (placeOfNames names) = some .directory := by
  have hprefix := hnames.filter (· ≠ ".")
  rw [← Path.filter_parts] at hprefix
  have hshort : names.filter (· ≠ ".") ≠ (Path.parts path).filter (· ≠ ".") := by
    intro heq
    rw [← Path.placeOfNames_filter, heq, Path.placeOfNames_filter, Path.placeOfNames_parts] at hne
    exact hne rfl
  rcases (Path.parts path).eq_nil_or_concat with hnil | ⟨init, last, hparts⟩
  · rw [hnil] at hprefix hshort
    exact absurd (List.prefix_nil.1 hprefix) hshort
  rw [List.concat_eq_append] at hparts
  have hinit : names.filter (· ≠ ".") <+: init.filter (· ≠ ".") := by
    rw [hparts, List.filter_append] at hprefix hshort
    by_cases hdot : last = "."
    · simpa [hdot] using hprefix
    · have hlast : [last].filter (· ≠ ".") = [last] :=
        List.filter_cons_of_pos (decide_eq_true hdot)
      rw [hlast] at hprefix hshort
      exact (List.prefix_concat_iff.1 hprefix).resolve_left hshort
  obtain ⟨short, hshort, hsame⟩ := List.prefix_filter_iff.1 hinit
  rw [← Path.placeOfNames_filter, hsame, Path.placeOfNames_filter]
  refine directory_of_prefix h (hshort.trans ?_)
  have hkept := dropLast_parts_prefix path
  rwa [hparts, List.dropLast_concat] at hkept

/-- The temporary file does not stand on the way to the path. -/
theorem locate_put_temporary (content : Bytes) (h : makeParents disk path = (grown, .ok ()))
    (hobstacle : obstacle? grown path = none) :
    (grown.put (placeOf (temporaryPath path)) (.file content)).locate path = grown.locate path := by
  rw [Disk.locate, Disk.locate]
  congr 3
  refine Disk.walk_congr fun before name after hnames => ?_
  rw [Disk.node?_put placeOf_temporaryPath_ne_nil, if_neg]
  intro hplace
  refine not_directory_of_obstacle hobstacle ?_
  rw [← hplace]
  refine directory_on_the_way h ⟨name :: after, hnames.symm⟩ fun heq => ?_
  exact placeOf_temporaryPath_ne path (hplace.symm.trans heq)

theorem moveFault_refused (path text : String) : moveFault path (.refused text) = .refused text :=
  if_neg nofun

theorem moveFault_isDirectory (path : String) : moveFault path .isDirectory =
    if Disk.endsInDots path = true then .busy
    else if Path.endsInSlash path = true then .notDirectory
    else .isDirectory :=
  if_pos rfl

/-- The temporary file is moved to the path where a file can be put there. -/
theorem moveFile_temporaryPath (content : Bytes) (h : makeParents disk path = (grown, .ok ()))
    (hobstacle : obstacle? grown path = none) :
    (grown.put (placeOf (temporaryPath path)) (.file content)).moveFile (temporaryPath path) path =
      match grown.putFile path content with
      | .error fault => .error (moveFault path fault)
      | .ok written => .ok (written.clear (placeOf (temporaryPath path))) := by
  have hfree := filePlace_temporaryPath h
  rw [hobstacle] at hfree
  obtain ⟨hold, hfile, hslash⟩ := Disk.find_eq_file (Disk.find_put_of_filePlace hfree content)
  have hlocate := locate_put_temporary content h hobstacle
  rw [Disk.putFile]
  cases hplace : grown.locate path with
  | error fault =>
    have hfault : fault ≠ .isDirectory := fun heq => Disk.locate_ne_isDirectory (heq ▸ hplace)
    rw [Disk.moveFile_eq_error hold (hlocate.trans hplace), Disk.filePlace_eq_error hplace]
    exact congrArg Except.error (if_neg hfault).symm
  | ok place =>
    obtain rfl := Disk.locate_eq_ok hplace
    have hne := placeOf_temporaryPath_ne path
    have hsame : (grown.put (placeOf (temporaryPath path)) (.file content)).node? (placeOf path) =
        grown.node? (placeOf path) := by
      rw [Disk.node?_put placeOf_temporaryPath_ne_nil, if_neg hne.symm]
    rw [Disk.moveFile_eq hold (hlocate.trans hplace) endsInDots_temporaryPath hslash hfile,
      Disk.filePlace_eq hplace, hsame]
    have hfault := moveFault_isDirectory path
    by_cases hdots : Disk.endsInDots path = true
    · rw [if_pos hdots] at hfault
      rw [if_pos hdots, if_pos (.inr (Disk.directory_of_endsInDots hplace hdots))]
      exact congrArg Except.error hfault.symm
    rw [if_neg hdots] at hfault ⊢
    by_cases hends : Path.endsInSlash path = true
    · rw [if_pos hends] at hfault
      rw [if_pos hends, if_pos (.inl hends)]
      exact congrArg Except.error hfault.symm
    rw [if_neg hends] at hfault ⊢
    by_cases hdir : grown.node? (placeOf path) = some .directory
    · rw [if_pos hdir, if_pos (.inr hdir)]
      exact congrArg Except.error hfault.symm
    rw [if_neg hdir, if_neg (not_or.2 ⟨hends, hdir⟩), Disk.permit_put, Disk.clear_put,
      ← Disk.clear_put_of_ne hne.symm]
    cases hpermit : grown.permit .move with
    | error fault =>
      obtain ⟨text, rfl⟩ := Disk.permit_eq_error hpermit
      exact congrArg Except.error (moveFault_refused path text).symm
    | ok => rfl

/-! ## The report -/

/-- Where nothing is in the way of the temporary file, a report is put at its path just where it
could be put there at once. Where it could not, the temporary file was begun. -/
theorem replace_cases (h : makeParents disk path = (grown, .ok ()))
    (hobstacle : obstacle? grown path = none) (records : List Measurement) :
    (∃ written, putReport grown path records = .ok written ∧
        replace grown path records = (written.clear (placeOf (temporaryPath path)), .ok ())) ∨
      ∃ fault after, putReport grown path records = .error fault ∧
        replace grown path records = (after, .error (moveFault path fault)) ∧
        grown.Begun (placeOf (temporaryPath path)) (Utf8.encode (text records)) after := by
  have hfree := filePlace_temporaryPath h
  have hmoves := moveFile_temporaryPath (Utf8.encode (text records)) h hobstacle
  have hreplaced := replaced_replace grown path records
  rw [hobstacle] at hfree
  rw [putReport]
  generalize replace grown path records = result at hreplaced
  cases hreplaced with
  | blocked hplace => cases hplace.symm.trans hfree
  | refused hplace hsteps hbegun =>
    obtain ⟨text, rfl⟩ := Disk.permitAll_eq_error hsteps
    refine .inr ⟨_, _, by rw [hsteps]; rfl, ?_, hbegun⟩
    rw [moveFault_refused]
  | stuck hplace hsteps hmove =>
    rw [hmove] at hmoves
    rw [hsteps]
    split at hmoves
    next fault hput =>
      refine .inr ⟨fault, _, hput, ?_, .inr ⟨_, List.prefix_refl _, rfl⟩⟩
      rw [Except.error.inj hmoves]
    next => cases hmoves
  | moved hplace hsteps hmove =>
    rw [hmove] at hmoves
    rw [hsteps]
    split at hmoves
    next => cases hmoves
    next written hput =>
      refine .inl ⟨written, hput, ?_⟩
      rw [Except.ok.inj hmoves]

/-- The directories that are made do not take the place of the temporary file. -/
theorem free_of_obstacle (h : makeParents disk path = (grown, .ok ()))
    (hobstacle : obstacle? grown path = none)
    (hfree : disk.node? (placeOf (temporaryPath path)) = none) :
    grown.node? (placeOf (temporaryPath path)) = none := by
  have hgrown := grown_makeParents disk path
  rw [h] at hgrown
  rcases hgrown (placeOf (temporaryPath path)) with hsame | ⟨-, hmade, -⟩
  · rw [hsame, hfree]
  · exact absurd hmade (not_directory_of_obstacle hobstacle)

/-- Where nothing stood at the place of the temporary file, there is nothing to take away. -/
theorem clear_of_obstacle (h : makeParents disk path = (grown, .ok ()))
    (hobstacle : obstacle? grown path = none)
    (hfree : disk.node? (placeOf (temporaryPath path)) = none) {after : Disk}
    (hsame : after.node? (placeOf (temporaryPath path)) =
      grown.node? (placeOf (temporaryPath path))) :
    after.clear (placeOf (temporaryPath path)) = after :=
  Disk.clear_of_free placeOf_temporaryPath_ne_nil (hsame.trans (free_of_obstacle h hobstacle hfree))

/-- Nothing more is at the place of the temporary file after a report was put beside it. -/
theorem node?_putReport {records : List Measurement} {written : Disk}
    (hput : putReport grown path records = .ok written) :
    written.node? (placeOf (temporaryPath path)) =
      grown.node? (placeOf (temporaryPath path)) := by
  obtain ⟨_, -, hput⟩ := Except.bind_eq_ok_iff.1 hput
  obtain ⟨hplace, rfl⟩ := Disk.putFile_eq_ok hput
  rw [Disk.node?_put (Disk.ne_nil_of_node? (Disk.filePlace_eq_ok hplace).2.2.2),
    if_neg (placeOf_temporaryPath_ne path)]

/-- Where the temporary file cannot stand, only the directories above the path are made. -/
theorem write_of_obstacle {fault : DiskFault} (h : makeParents disk path = (grown, .ok ()))
    (hobstacle : obstacle? grown path = some fault) (records : List Measurement) :
    write disk path records = (grown, .error fault) := by
  have hplace := filePlace_temporaryPath h
  rw [hobstacle] at hplace
  have hreplace : replace grown path records = (grown, .error fault) := by
    rw [replace, Disk.fillFile_eq_error hplace]
  rw [write_of_not_replaced h hreplace, cleared_of_obstacle h hobstacle]

/-- A temporary file that was begun is removed, or it stays as the device refuses to remove it. -/
theorem cleared_cases {after : Disk} {content : Bytes} (h : makeParents disk path = (grown, .ok ()))
    (hobstacle : obstacle? grown path = none)
    (hbegun : grown.Begun (placeOf (temporaryPath path)) content after) :
    (disk.permit .remove = .ok () →
        cleared after path = grown.clear (placeOf (temporaryPath path))) ∧
      (disk.permit .remove ≠ .ok () → cleared after path = after) := by
  have hplace := filePlace_temporaryPath h
  have hpermit := permit_makeParents disk path .remove
  rw [hobstacle] at hplace
  rw [h] at hpermit
  constructor
  · intro hremove
    exact cleared_of_begun hplace hbegun (hpermit.trans hremove)
  · intro hremove
    cases hrefused : disk.permit .remove with
    | ok => exact absurd hrefused hremove
    | error fault => exact cleared_of_refused (hbegun.permit_eq.trans (hpermit.trans hrefused))

/-- What an attempt to write a report comes to is what is emitted. -/
theorem emit_of_write {records : List Measurement} {after : Disk} {result : Except DiskFault Unit}
    (h : records ≠ []) (hwrite : write disk path records = (after, result)) :
    (emit disk .blocking (some path) records).1 = after ∧
      (emit disk .blocking (some path) records).2.value =
        match result with
        | .ok () => .written path records.length
        | .error fault => .failed (.report path fault) := by
  cases result <;> simp [emit, h, hwrite]

/-- Where the directories above its path are made and no obstacle keeps the temporary file from
standing beside it, a report is written just where it could be written at its path at once. If it is
written, or the device lets files be removed, the disk is then as if it had been written at once, but
with nothing at the place of the temporary file; otherwise the temporary file may stay, with a
beginning of the report. With an obstacle the report fails for it, and only those directories were
made. -/
theorem emit_as_if_direct (disk : Disk) (path : String) {records : List Measurement}
    (h : records ≠ []) :
    let emitted := emit disk .blocking (some path) records
    let direct := writeDirectly disk path records
    let temporary := placeOf (temporaryPath path)
    match makeParents disk path with
    | (grown, .error fault) =>
      direct = (grown, .error fault) ∧ emitted.1 = grown ∧
        emitted.2.value = .failed (.report path fault)
    | (grown, .ok ()) =>
      match obstacle? grown path with
      | some fault => emitted.1 = grown ∧ emitted.2.value = .failed (.report path fault)
      | none =>
        (emitted.2.value =
          match direct.2 with
          | .ok () => .written path records.length
          | .error fault => .failed (.report path (moveFault path fault))) ∧
        (direct.2 = .ok () ∨ disk.permit .remove = .ok () →
          emitted.1 = direct.1.clear temporary ∧
            (disk.node? temporary = none → emitted.1 = direct.1)) ∧
        (direct.2 ≠ .ok () → disk.permit .remove ≠ .ok () →
          direct.1.Begun temporary (Utf8.encode (text records)) emitted.1) := by
  intro emitted direct temporary
  cases hparents : makeParents disk path with
  | mk grown made =>
    cases made with
    | error fault =>
      have hwrite : write disk path records = (grown, .error fault) := by rw [write, hparents]
      exact ⟨by simp only [direct, writeDirectly, hparents], emit_of_write h hwrite⟩
    | ok =>
      dsimp only
      cases hobstacle : obstacle? grown path with
      | some fault => exact emit_of_write h (write_of_obstacle hparents hobstacle records)
      | none =>
        rcases replace_cases hparents hobstacle records with
          ⟨written, hput, hreplace⟩ | ⟨fault, after, hput, hreplace, hbegun⟩
        · have hdirect : direct = (written, .ok ()) := by
            simp only [direct, writeDirectly, hparents, hput]
          obtain ⟨hdisk, hvalue⟩ := emit_of_write h (write_of_replaced hparents hreplace)
          have hsame := node?_putReport hput
          rw [hdirect]
          exact ⟨hvalue, fun _ => ⟨hdisk, fun hfree =>
            hdisk.trans (clear_of_obstacle hparents hobstacle hfree hsame)⟩, (absurd rfl ·)⟩
        · have hdirect : direct = (grown, .error fault) := by
            simp only [direct, writeDirectly, hparents, hput]
          obtain ⟨hdisk, hvalue⟩ := emit_of_write h (write_of_not_replaced hparents hreplace)
          obtain ⟨hremoved, hstays⟩ := cleared_cases hparents hobstacle hbegun
          rw [hdirect]
          refine ⟨hvalue, ?_, fun _ hremove => ?_⟩
          · rintro (hok | hremove)
            · cases hok
            · have hcleared : emitted.1 = grown.clear temporary := hdisk.trans (hremoved hremove)
              exact ⟨hcleared, fun hfree =>
                hcleared.trans (clear_of_obstacle hparents hobstacle hfree rfl)⟩
          · have hafter : emitted.1 = after := hdisk.trans (hstays hremove)
            rw [hafter]
            exact hbegun

/-- A disk with a file beside the place of a report. -/
def fileBeside : Disk := { entries := [(["out.csv.tmp"], .file [107])] }

/-- A report is written over a file that was there, and nothing shows of the temporary file. -/
theorem emit_as_if_direct_sample : [unanswered] ≠ [] ∧
    (emit fileBeside .blocking (some "out.csv.tmp") [unanswered]).1 =
        (writeDirectly fileBeside "out.csv.tmp" [unanswered]).1 ∧
      (writeDirectly fileBeside "out.csv.tmp" [unanswered]).1.node? ["out.csv.tmp"] =
        some (.file (Utf8.encode (text [unanswered]))) := by
  have hparents : makeParents fileBeside "out.csv.tmp" = (fileBeside, .ok ()) := by decide +kernel
  have hobstacle : obstacle? fileBeside "out.csv.tmp" = none := by decide +kernel
  have hdirect := emit_as_if_direct fileBeside "out.csv.tmp" (List.cons_ne_nil unanswered [])
  simp only [hparents, hobstacle] at hdirect
  exact ⟨List.cons_ne_nil _ _, (hdirect.2.1 (.inl (by decide +kernel))).2 (by decide +kernel),
    by decide +kernel⟩

/-- A file that has the name of the temporary file is lost, though the report could be written
without it. -/
theorem file_beside_lost :
    (writeDirectly fileBeside "out.csv" [unanswered]).2 = .ok () ∧
      (writeDirectly fileBeside "out.csv" [unanswered]).1.node? ["out.csv.tmp"] =
        some (.file [107]) ∧
      (emit fileBeside .blocking (some "out.csv") [unanswered]).2.value = .written "out.csv" 1 ∧
      (emit fileBeside .blocking (some "out.csv") [unanswered]).1.node? ["out.csv.tmp"] = none := by
  decide +kernel

end LoadReplay.Report
