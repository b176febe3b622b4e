import LoadReplay.Proofs.Disk.Filling
import LoadReplay.Report.Basic

/-!
# A report is written whole or not at all

A report is written beside its path and moved there, so what stands at the place of its path is what
stood there before or the whole report, whatever the device refuses on the way. Other places are
`Spared`: a place is as it was, or a missing directory above the path was made there, or it is the
place of the temporary file and nothing stands there (`emit_all_or_nothing`).

There are two exceptions (`directory_in_place_of_report`). A path that goes up may pass through its
own place, as `b/../b` does. Then the report is not written but its place, where nothing stood, is
one of the directories that were made. And where the device refuses to write the report and to
remove the temporary file as well, this stays, with a beginning of the report (`Leftover`).
-/

namespace LoadReplay.Report

open Disk (placeOf Grown)

/-! ## The temporary file -/

/-- The name of the temporary file for a path. -/
def temporaryName (path : String) : String := (Path.fileName? path).getD "" ++ ".tmp"

theorem length_temporaryName (path : String) :
    (temporaryName path).length = ((Path.fileName? path).getD "").length + 4 :=
  String.length_append ..

theorem fileName?_eq_some {path name : String} (h : Path.fileName? path = some name) :
    Path.parts path = (Path.parts path).dropLast ++ [name] ∧ Path.isDotName name = false := by
  rw [Path.fileName?] at h
  split at h
  next last hlast =>
    split at h
    · cases h
    next hdots =>
      cases h
      exact ⟨(List.dropLast_append_getLast? _ hlast).symm, Bool.eq_false_iff.2 hdots⟩
  · cases h

theorem isName_temporaryName (path : String) : Path.IsName (temporaryName path) := by
  have hlength := length_temporaryName path
  refine ⟨fun hempty => ?_, fun hslash => ?_⟩
  · rw [hempty] at hlength
    exact absurd hlength (by simp)
  · rw [temporaryName, String.toList_append, List.mem_append] at hslash
    rcases hslash with hslash | hslash
    · cases hname : Path.fileName? path with
      | none => simp [hname] at hslash
      | some name =>
        rw [hname, Option.getD_some] at hslash
        have hmem : name ∈ Path.parts path := by
          rw [(fileName?_eq_some hname).1]
          exact List.mem_append_right _ (List.mem_singleton_self _)
        exact (Path.isName_of_mem_parts hmem).slash_not_mem hslash
    · exact absurd hslash (by decide)

theorem follow_temporaryName (place : Place) (path : String) :
    Path.follow place (temporaryName path) = place ++ [temporaryName path] := by
  have hlength := length_temporaryName path
  have hdots (name : String) (h : name.length < 4) : temporaryName path ≠ name := by
    rintro rfl
    omega
  rw [Path.follow, if_neg (hdots "." (by decide)), if_neg (hdots ".." (by decide))]

/-- The temporary file never stands at the place of the report. -/
theorem placeOf_temporaryPath_ne (path : String) :
    placeOf (temporaryPath path) ≠ placeOf path := by
  have hplace (kept : List String) (h : kept ⊆ Path.parts path) :
      placeOf (Path.join path (kept ++ [temporaryName path])) =
        Path.placeOfNames kept ++ [temporaryName path] := by
    rw [Path.placeOf_join, Path.placeOfNames_concat, follow_temporaryName]
    intro name hname
    rcases List.mem_append.1 hname with hname | hname
    · exact Path.isName_of_mem_parts (h hname)
    · rw [List.mem_singleton.1 hname]
      exact isName_temporaryName path
  rw [← Path.placeOfNames_parts path]
  cases hname : Path.fileName? path with
  | none =>
    have htemporary : temporaryPath path =
        Path.join path (Path.parts path ++ [temporaryName path]) := by
      simp [temporaryPath, Path.withFileName, temporaryName, hname]
    rw [htemporary, hplace _ (List.Subset.refl _)]
    exact fun heq => by simpa using congrArg List.length heq
  | some name =>
    obtain ⟨hparts, hdots⟩ := fileName?_eq_some hname
    have htemporary : temporaryPath path =
        Path.join path ((Path.parts path).dropLast ++ [temporaryName path]) := by
      simp [temporaryPath, Path.withFileName, temporaryName, hname]
    have hfollow (place : Place) : Path.follow place name = place ++ [name] := by
      simp only [Path.isDotName, Bool.or_eq_false_iff, beq_eq_false_iff_ne] at hdots
      rw [Path.follow, if_neg hdots.1, if_neg hdots.2]
    rw [htemporary, hplace _ (List.dropLast_subset _), hparts, Path.placeOfNames_concat,
      List.dropLast_concat, hfollow]
    intro heq
    have hsame : temporaryName path = name :=
      List.singleton_injective (List.append_inj_right' heq rfl)
    have hlength := length_temporaryName path
    rw [hsame, hname, Option.getD_some] at hlength
    omega

/-! ## Writing -/

/-- What may become of a place where the report is not written: it is as it was, or a missing
directory above the path was made there, or the temporary file stood there and nothing does now. -/
def Spared (path : String) (before after : Disk) (place : Place) : Prop :=
  after.node? place = before.node? place ∨
    before.node? place = none ∧ after.node? place = some .directory ∧
      place ∈ Path.parentPlaces path ∨
    place = placeOf (temporaryPath path) ∧ after.node? place = none

/-- The temporary file stays at a place, with a beginning of the report, as the device refuses to
remove it. -/
structure Leftover (path : String) (records : List Measurement) (before after : Disk)
    (place : Place) : Prop where
  place_eq : place = placeOf (temporaryPath path)
  removal_refused : ∃ fault, before.permit .remove = .error fault
  exists_part : ∃ part, part <+: Utf8.encode (text records) ∧
    after.node? place = some (.file part)

theorem flatten_lines (records : List Measurement) :
    ((lines records).map Utf8.encode).flatten = Utf8.encode (text records) := by
  rw [text, Utf8.encode, List.flatMap_append, List.flatMap_assoc, lines, List.map_cons,
    List.flatten_cons, List.map_map, ← List.flatMap_def]
  rfl

/-- The steps of writing the temporary file. -/
def writingSteps (records : List Measurement) : List FileStep :=
  Disk.fillingSteps (lines records).length

/-- How it can end to write the temporary file and to move it: no file can stand at its place, the
device refuses a step of writing it, it cannot be moved, or it is moved. -/
inductive Replaced (disk : Disk) (path : String) (records : List Measurement) :
    Disk × Except DiskFault Unit → Prop where
  | blocked {fault : DiskFault} (hplace : disk.filePlace (temporaryPath path) = .error fault) :
    Replaced disk path records (disk, .error fault)
  | refused {after : Disk} {fault : DiskFault}
    (hplace : disk.filePlace (temporaryPath path) = .ok (placeOf (temporaryPath path)))
    (hsteps : disk.permitAll (writingSteps records) = .error fault)
    (hbegun : disk.Begun (placeOf (temporaryPath path)) (Utf8.encode (text records)) after) :
    Replaced disk path records (after, .error fault)
  | stuck {fault : DiskFault}
    (hplace : disk.filePlace (temporaryPath path) = .ok (placeOf (temporaryPath path)))
    (hsteps : disk.permitAll (writingSteps records) = .ok ())
    (hmove : (disk.put (placeOf (temporaryPath path))
      (.file (Utf8.encode (text records)))).moveFile (temporaryPath path) path = .error fault) :
    Replaced disk path records
      (disk.put (placeOf (temporaryPath path)) (.file (Utf8.encode (text records))), .error fault)
  | moved {after : Disk}
    (hplace : disk.filePlace (temporaryPath path) = .ok (placeOf (temporaryPath path)))
    (hsteps : disk.permitAll (writingSteps records) = .ok ())
    (hmove : (disk.put (placeOf (temporaryPath path))
      (.file (Utf8.encode (text records)))).moveFile (temporaryPath path) path = .ok after) :
    Replaced disk path records (after, .ok ())

theorem replaced_replace (disk : Disk) (path : String) (records : List Measurement) :
    Replaced disk path records (replace disk path records) := by
  rw [replace]
  cases hplace : disk.filePlace (temporaryPath path) with
  | error fault =>
    rw [Disk.fillFile_eq_error hplace]
    exact .blocked hplace
  | ok place =>
    obtain rfl := (Disk.filePlace_eq_ok hplace).2.1
    obtain ⟨after, hfill, hbegun, hwhole⟩ :=
      Disk.exists_begun_fillFile hplace ((lines records).map Utf8.encode)
    rw [List.length_map] at hfill hwhole
    rw [flatten_lines] at hbegun hwhole
    rw [hfill]
    cases hsteps : disk.permitAll (Disk.fillingSteps (lines records).length) with
    | error fault => exact .refused hplace hsteps hbegun
    | ok =>
      obtain rfl := hwhole hsteps
      dsimp only
      split
      next fault hmove => exact .stuck hplace hsteps hmove
      next after hmove => exact .moved hplace hsteps hmove

/-! ## Making the directories above it -/

theorem grown_makeParents (disk : Disk) (path : String) :
    Grown (Path.parentPlaces path) disk (makeParents disk path).1 := by
  rw [makeParents, Path.parent?, Path.parentPlaces]
  split
  · exact Grown.refl _ disk
  next parent hparent =>
    split at hparent
    · cases hparent
    · cases hparent
      rw [Disk.makeDirectories, Path.parts_join (List.dropLast_prefix _)]
      exact Disk.grown_makeParts disk fun name hname =>
        Path.isName_of_mem_parts (List.dropLast_subset _ hname)

theorem permit_makeParents (disk : Disk) (path : String) (step : FileStep) :
    (makeParents disk path).1.permit step = disk.permit step := by
  rw [makeParents]
  split
  · rfl
  · exact Disk.permit_congr (Disk.device_makeParts disk _) step

theorem spared_of_grown {path : String} {before grown after : Disk} {place : Place}
    (h : Grown (Path.parentPlaces path) before grown)
    (hafter : after.node? place = grown.node? place ∨
      place = placeOf (temporaryPath path) ∧ after.node? place = none) :
    Spared path before after place := by
  rcases hafter with hafter | hafter
  · rw [Spared, hafter]
    exact (h place).imp_right .inl
  · exact .inr (.inr hafter)

/-! ## Removing it -/

/-- The disk without the temporary file, if it can be removed. -/
def cleared (disk : Disk) (path : String) : Disk :=
  (disk.removeFile (temporaryPath path)).toOption.getD disk

section

variable {disk after : Disk} {path : String} {content : Bytes}

/-- Taking the temporary file away changes nothing at another place. -/
theorem node?_cleared (disk : Disk) (path : String) (place : Place) :
    (cleared disk path).node? place = disk.node? place ∨
      place = placeOf (temporaryPath path) ∧ (cleared disk path).node? place = none := by
  cases hremove : disk.removeFile (temporaryPath path) with
  | error fault =>
    rw [cleared, hremove]
    exact .inl rfl
  | ok after =>
    have hafter : cleared disk path = after := by rw [cleared, hremove]; rfl
    have hnode := Disk.removeFile_eq_ok hremove place
    rw [hafter]
    by_cases hplace : place = placeOf (temporaryPath path)
    · exact .inr ⟨hplace, hnode.trans (if_pos hplace)⟩
    · exact .inl (hnode.trans (if_neg hplace))

theorem cleared_of_refused {fault : DiskFault} (h : disk.permit .remove = .error fault) :
    cleared disk path = disk := by
  rw [cleared, Disk.removeFile_of_refused h]
  rfl

/-- A temporary file that was begun is removed if the device lets it be. -/
theorem cleared_of_begun
    (hplace : disk.filePlace (temporaryPath path) = .ok (placeOf (temporaryPath path)))
    (hbegun : disk.Begun (placeOf (temporaryPath path)) content after)
    (hremove : disk.permit .remove = .ok ()) :
    cleared after path = disk.clear (placeOf (temporaryPath path)) := by
  obtain ⟨hlocate, -, hslash, hfree⟩ := Disk.filePlace_eq_ok hplace
  rcases hbegun with rfl | ⟨part, -, rfl⟩
  · cases hnode : after.node? (placeOf (temporaryPath path)) with
    | none =>
      have hnone : after.removeFile (temporaryPath path) = .error .notFound := by
        rw [Disk.removeFile, Disk.find, hlocate]
        simp [bind, Except.bind, hnode]
      rw [cleared, hnone, Disk.clear_of_free (Disk.ne_nil_of_node? hfree) hnode]
      rfl
    | some node =>
      cases node with
      | directory => exact absurd hnode hfree
      | file old =>
        rw [cleared, Disk.removeFile_of_find (Disk.find_of_file hlocate hnode hslash), hremove]
        rfl
  · rw [cleared, Disk.removeFile_of_find (Disk.find_put_of_filePlace hplace part),
      Disk.permit_put, hremove]
    exact Disk.clear_put ..

end

/-- Where the report is not written, a place is spared or the temporary file is left there. -/
theorem spared_or_leftover {disk grown after : Disk} {path : String}
    {records : List Measurement} (hgrown : Grown (Path.parentPlaces path) disk grown)
    (hpermit : grown.permit .remove = disk.permit .remove)
    (hplace : grown.filePlace (temporaryPath path) = .ok (placeOf (temporaryPath path)))
    (hbegun : grown.Begun (placeOf (temporaryPath path)) (Utf8.encode (text records)) after)
    (place : Place) : Spared path disk (cleared after path) place ∨
      Leftover path records disk (cleared after path) place := by
  have hne := Disk.ne_nil_of_node? (Disk.filePlace_eq_ok hplace).2.2.2
  cases hremove : disk.permit .remove with
  | ok =>
    refine .inl (spared_of_grown hgrown ?_)
    rw [cleared_of_begun hplace hbegun (hpermit.trans hremove), Disk.node?_clear hne]
    split
    next heq => exact .inr ⟨heq, rfl⟩
    next => exact .inl rfl
  | error fault =>
    rw [cleared_of_refused (hbegun.permit_eq.trans (hpermit.trans hremove))]
    rcases hbegun with rfl | ⟨part, hpart, rfl⟩
    · exact .inl (spared_of_grown hgrown (.inl rfl))
    · by_cases heq : place = placeOf (temporaryPath path)
      · refine .inr ⟨heq, ⟨fault, hremove⟩, part, hpart, ?_⟩
        rw [Disk.node?_put hne, if_pos heq]
      · refine .inl (spared_of_grown hgrown (.inl ?_))
        rw [Disk.node?_put hne, if_neg heq]

/-- A report that was moved to its path is found there, and the other places are spared. -/
theorem spared_of_moved {disk grown after : Disk} {path : String} {content : Bytes}
    (hgrown : Grown (Path.parentPlaces path) disk grown)
    (hplace : grown.filePlace (temporaryPath path) = .ok (placeOf (temporaryPath path)))
    (hmove : (grown.put (placeOf (temporaryPath path)) (.file content)).moveFile
      (temporaryPath path) path = .ok after) :
    after.find path = .ok (.file content) ∧
      ∀ place, place = placeOf path ∨ Spared path disk after place := by
  have hput (place : Place) :
      (grown.put (placeOf (temporaryPath path)) (.file content)).node? place =
        if place = placeOf (temporaryPath path) then some (.file content)
        else grown.node? place :=
    Disk.node?_put (Disk.ne_nil_of_node? (Disk.filePlace_eq_ok hplace).2.2.2) place
  obtain ⟨moved, hcontent, hfind, hmoved⟩ := Disk.moveFile_eq_ok hmove
  rw [hput, if_pos rfl, Option.some_inj, Node.file.injEq] at hcontent
  refine ⟨hcontent ▸ hfind, fun place => ?_⟩
  by_cases hreport : place = placeOf path
  · exact .inl hreport
  · refine .inr (spared_of_grown hgrown ?_)
    rw [hmoved, if_neg hreport]
    by_cases htemporary : place = placeOf (temporaryPath path)
    · exact .inr ⟨htemporary, if_pos htemporary⟩
    · rw [if_neg htemporary, hput, if_neg htemporary]
      exact .inl rfl

theorem write_of_replaced {disk grown after : Disk} {path : String} {records : List Measurement}
    (hparents : makeParents disk path = (grown, .ok ()))
    (h : replace grown path records = (after, .ok ())) :
    write disk path records = (after, .ok ()) := by
  simp only [write, hparents, h]

theorem write_of_not_replaced {disk grown after : Disk} {path : String}
    {records : List Measurement} {fault : DiskFault}
    (hparents : makeParents disk path = (grown, .ok ()))
    (h : replace grown path records = (after, .error fault)) :
    write disk path records = (cleared after path, .error fault) := by
  simp only [write, hparents, h]
  rfl

/-- What an attempt to write a report leaves: the whole report at its path, or nothing new unless
the device refuses to remove the temporary file. -/
theorem write_leaves (disk : Disk) (path : String) (records : List Measurement) :
    match write disk path records with
    | (after, .ok ()) =>
      after.find path = .ok (.file (Utf8.encode (text records))) ∧
        ∀ place, place = placeOf path ∨ Spared path disk after place
    | (after, .error _) =>
      ∀ place, Spared path disk after place ∨ Leftover path records disk after place := by
  have hgrown := grown_makeParents disk path
  have hpermit := permit_makeParents disk path .remove
  cases hparents : makeParents disk path with
  | mk grown made =>
    rw [hparents] at hgrown hpermit
    cases made with
    | error fault =>
      rw [write, hparents]
      exact fun place => .inl (spared_of_grown hgrown (.inl rfl))
    | ok =>
      have hreplaced := replaced_replace grown path records
      rcases hresult : replace grown path records with ⟨after, fault | _⟩
      · rw [write_of_not_replaced hparents hresult]
        rw [hresult] at hreplaced
        cases hreplaced with
        | blocked hplace =>
          exact fun place => .inl (spared_of_grown hgrown (node?_cleared grown path place))
        | refused hplace hsteps hbegun =>
          exact fun place => spared_or_leftover hgrown hpermit hplace hbegun place
        | stuck hplace hsteps hmove =>
          exact fun place => spared_or_leftover hgrown hpermit hplace
            (.inr ⟨_, List.prefix_refl _, rfl⟩) place
      · rw [write_of_replaced hparents hresult]
        rw [hresult] at hreplaced
        cases hreplaced with
        | moved hplace hsteps hmove => exact spared_of_moved hgrown hplace hmove

/-! ## The report -/

/-- A report is skipped, or what becomes of it is what becomes of the attempt to write it. -/
theorem emit_cases (disk : Disk) (mode : Mode) (output : Option String)
    (records : List Measurement) :
    (∃ reason, emit disk mode output records = (disk, ⟨[], .skipped reason⟩) ∧
        (mode = .fireAndForget ∨ output = none ∨ records = [])) ∨
      ∃ path after log, mode = .blocking ∧ output = some path ∧ records ≠ [] ∧
        (write disk path records = (after, .ok ()) ∧
            emit disk mode output records = (after, ⟨log, .written path records.length⟩) ∨
          ∃ fault, write disk path records = (after, .error fault) ∧
            emit disk mode output records = (after, ⟨log, .failed (.report path fault)⟩)) := by
  cases mode with
  | fireAndForget => exact .inl ⟨_, rfl, .inl rfl⟩
  | blocking =>
    cases output with
    | none => exact .inl ⟨_, rfl, .inr (.inl rfl)⟩
    | some path =>
      cases records with
      | nil => exact .inl ⟨_, rfl, .inr (.inr rfl)⟩
      | cons record records =>
        right
        cases hwrite : write disk path (record :: records) with
        | mk after result =>
          cases result with
          | ok =>
            refine ⟨path, after, [.reportWritten path (record :: records).length], rfl, rfl,
              List.cons_ne_nil _ _, .inl ⟨hwrite, ?_⟩⟩
            simp [emit, hwrite]
          | error fault =>
            refine ⟨path, after, [.reportFailed (.report path fault)], rfl, rfl,
              List.cons_ne_nil _ _, .inr ⟨fault, hwrite, ?_⟩⟩
            simp [emit, hwrite]

/-- A report that was written is found at its path. -/
theorem find_of_written {disk : Disk} {mode : Mode} {output : Option String}
    {records : List Measurement} {path : String} {rows : Nat}
    (h : (emit disk mode output records).2.value = .written path rows) : output = some path ∧
      (emit disk mode output records).1.find path = .ok (.file (Utf8.encode (text records))) := by
  rcases emit_cases disk mode output records with
    ⟨reason, hemit, -⟩ | ⟨path, after, log, -, houtput, -, ⟨hwrite, hemit⟩ | ⟨fault, -, hemit⟩⟩
  · rw [hemit] at h
    cases h
  · have hleaves := write_leaves disk path records
    rw [hwrite] at hleaves
    rw [hemit] at h ⊢
    cases h
    exact ⟨houtput, hleaves.1⟩
  · rw [hemit] at h
    cases h

theorem entry_of_spared {path : String} {records : List Measurement} {before after : Disk}
    (h : Spared path before after (placeOf path) ∨
      Leftover path records before after (placeOf path)) :
    after.node? (placeOf path) = before.node? (placeOf path) ∨
      before.node? (placeOf path) = none ∧ after.node? (placeOf path) = some .directory ∧
        ".." ∈ Path.segments path := by
  rcases h with (h | ⟨hfree, hmade, hplace⟩ | ⟨hplace, -⟩) | ⟨hplace, -, -⟩
  · exact .inl h
  · have hne : placeOf path ≠ [] := Disk.ne_nil_of_node? (by rw [hfree]; exact nofun)
    exact .inr ⟨hfree, hmade, Path.up_of_placeOf_mem_parentPlaces hne hplace⟩
  · exact absurd hplace.symm (placeOf_temporaryPath_ne path)
  · exact absurd hplace.symm (placeOf_temporaryPath_ne path)

/-- A report is skipped, and the disk is as it was, just where the replay is not in blocking mode or
there is no path or no record. Where it is written, the whole report is found at its path; where
that fails, what stands at its place is what stood there, unless nothing did and the path goes up
through a directory that was made there. The other places are spared, also that of the temporary
file unless the device refuses to remove it after the report failed. -/
theorem emit_all_or_nothing (disk : Disk) (mode : Mode) (output : Option String)
    (records : List Measurement) :
    match Report.emit disk mode output records with
    | (after, ⟨_, .skipped _⟩) =>
      (mode = .fireAndForget ∨ output = none ∨ records = []) ∧ after = disk
    | (after, ⟨_, .written path rows⟩) =>
      mode = .blocking ∧ output = some path ∧ records ≠ [] ∧ rows = records.length ∧
        after.find path = .ok (.file (Utf8.encode (text records))) ∧
        ∀ place, place = placeOf path ∨ Spared path disk after place
    | (after, ⟨_, .failed error⟩) =>
      mode = .blocking ∧ records ≠ [] ∧ ∃ path fault, output = some path ∧
        error = .report path fault ∧
        (after.node? (placeOf path) = disk.node? (placeOf path) ∨
          disk.node? (placeOf path) = none ∧ after.node? (placeOf path) = some .directory ∧
            ".." ∈ Path.segments path) ∧
        ∀ place, Spared path disk after place ∨ Leftover path records disk after place := by
  rcases emit_cases disk mode output records with
    ⟨reason, hemit, hwhy⟩ |
      ⟨path, after, log, hmode, houtput, hrecords, ⟨hwrite, hemit⟩ | ⟨fault, hwrite, hemit⟩⟩
  · rw [hemit]
    exact ⟨hwhy, rfl⟩
  · have hleaves := write_leaves disk path records
    rw [hwrite] at hleaves
    rw [hemit]
    exact ⟨hmode, houtput, hrecords, rfl, hleaves⟩
  · have hleaves := write_leaves disk path records
    rw [hwrite] at hleaves
    rw [hemit]
    exact ⟨hmode, hrecords, path, fault, houtput, rfl, entry_of_spared (hleaves _), hleaves⟩

/-- A measurement of which only the event is known. -/
def unanswered : Measurement := .ofEvent 0 0 ⟨0, "1", "", 1, 2⟩

/-- An empty disk that is full before a report is on it, and on which no file can be removed. -/
def worn : Disk :=
  { entries := []
    device :=
      { refusals := [(.flush, "No space left on device"), (.remove, "Read-only file system")]
        taken := 7 } }

/-- Nothing stood at the place of the report, and a directory does after the report failed. And the
first bytes of a report stay in the temporary file where this cannot be removed. -/
theorem directory_in_place_of_report :
    (Disk.empty.node? (placeOf "b/../b") = none ∧
      (emit .empty .blocking (some "b/../b") [unanswered]).2.value =
        .failed (.report "b/../b" .isDirectory) ∧
      (emit .empty .blocking (some "b/../b") [unanswered]).1.node? (placeOf "b/../b") =
        some .directory) ∧
    worn.node? (placeOf "b.tmp") = none ∧
      (emit worn .blocking (some "b") [unanswered]).2.value =
        .failed (.report "b" (.refused "No space left on device")) ∧
      (emit worn .blocking (some "b") [unanswered]).1.node? (placeOf "b.tmp") =
        some (.file (Utf8.encode "rel_tim".toList)) := by
  decide +kernel

end LoadReplay.Report
