import LoadReplay.Proofs.Disk.Walk

/-!
# Filling a file

A file is created, filled line by line and flushed. Whatever the device refuses on the way, a
beginning of the lines is what stands at the place of the file afterwards, or the disk is as it was
(`Begun`). The file is filled just where the device permits all the `fillingSteps`, and the first
step that it refuses is the reason where it does not (`exists_begun_fillFile`). A file that is put
somewhere at once (`putFile`) has no such beginning.
-/

namespace LoadReplay.Disk

variable {d : Disk} {path : String} {place : Place} {written part : Bytes}

/-- Whether the device lets some steps be done, one after the other. -/
def permitAll (d : Disk) (steps : List FileStep) : Except DiskFault Unit := steps.forM d.permit

/-- The steps of writing so many lines, the first of which is at an index. -/
def lineSteps (index count : Nat) : List FileStep := (List.range' index count).map .line

/-- The steps of creating a file, writing so many lines to it and putting it on the device. -/
def fillingSteps (count : Nat) : List FileStep := .create :: (lineSteps 0 count ++ [.flush, .sync])

/-- A file was begun to be filled at a place: the disk is as it was, or there is a beginning of what
the file is to hold. -/
def Begun (d : Disk) (place : Place) (content : Bytes) (after : Disk) : Prop :=
  after = d ∨ ∃ part, part <+: content ∧ after = d.put place (.file part)

/-- Puts a file at the place of a path at once, where the device lets a file be moved. -/
def putFile (d : Disk) (path : String) (content : Bytes) : Except DiskFault Disk := do
  let place ← d.filePlace path
  d.permit .move
  .ok (d.put place (.file content))

/-! ## What the device permits -/

theorem Begun.permit_eq {content : Bytes} {after : Disk} (h : d.Begun place content after)
    {step : FileStep} : after.permit step = d.permit step := by
  rcases h with rfl | ⟨part, -, rfl⟩
  · rfl
  · exact permit_put step

theorem permitAll_cons (step : FileStep) (steps : List FileStep) :
    d.permitAll (step :: steps) = d.permit step >>= fun () => d.permitAll steps := rfl

theorem permitAll_append (steps steps' : List FileStep) :
    d.permitAll (steps ++ steps') = d.permitAll steps >>= fun () => d.permitAll steps' :=
  List.forM_append ..

theorem permitAll_flush_sync :
    d.permitAll [.flush, .sync] = d.permit .flush >>= fun () => d.permit .sync := by
  simp [permitAll]

/-- A refusal of the device is told by its text. -/
theorem permit_eq_error {step : FileStep} {fault : DiskFault} (h : d.permit step = .error fault) :
    ∃ text, fault = .refused text := by
  rw [permit] at h
  split at h
  next text _ => exact ⟨text, (Except.error.inj h).symm⟩
  next => cases h

theorem permitAll_eq_error {steps : List FileStep} {fault : DiskFault}
    (h : d.permitAll steps = .error fault) : ∃ text, fault = .refused text := by
  induction steps with
  | nil => cases h
  | cons step steps ih =>
    rw [permitAll_cons] at h
    rcases Except.bind_eq_error_iff.1 h with h | ⟨_, -, h⟩
    · exact permit_eq_error h
    · exact ih h

/-! ## Lines -/

/-- A line adds to what was written, and the device has some beginning of that. -/
theorem writeLine_put (node : Node) (index : Nat) (line : Bytes) :
    (d.put place node).writeLine ⟨place, written⟩ index line =
      (d.put place (.file ((written ++ line).take d.device.taken)),
        (d.permit (.line index)).map fun () => ⟨place, written ++ line⟩) := by
  rw [writeLine, put_put]
  rfl

/-- Lines add to what was written up to the first that is refused, and the device has some
beginning of that. -/
theorem exists_writeLines_put (hpart : part <+: written) (index : Nat) (lines : List Bytes) :
    ∃ part', part' <+: written ++ lines.flatten ∧
      (d.put place (.file part)).writeLines ⟨place, written⟩ index lines =
        (d.put place (.file part'), (d.permitAll (lineSteps index lines.length)).map fun () =>
          ⟨place, written ++ lines.flatten⟩) := by
  induction lines generalizing part written index with
  | nil =>
    rw [List.flatten_nil, List.append_nil]
    exact ⟨part, hpart, rfl⟩
  | cons line lines ih =>
    have hsteps : lineSteps index (line :: lines).length =
        .line index :: lineSteps (index + 1) lines.length := rfl
    have htaken : (written ++ line).take d.device.taken <+: written ++ line := List.take_prefix _ _
    rw [writeLines, writeLine_put, hsteps, permitAll_cons, List.flatten_cons, ← List.append_assoc]
    cases hpermit : d.permit (.line index) with
    | error fault => exact ⟨_, htaken.trans (List.prefix_append _ _), rfl⟩
    | ok => exact ih htaken (index + 1)

/-! ## Files -/

theorem fillFile_eq_error {fault : DiskFault} (h : d.filePlace path = .error fault)
    (lines : List Bytes) : d.fillFile path lines = (d, .error fault) := by
  rw [fillFile, createFile, h]
  rfl

/-- Where a file may stand, filling one does what the device permits. -/
theorem exists_begun_fillFile (h : d.filePlace path = .ok place) (lines : List Bytes) :
    ∃ after, d.fillFile path lines = (after, d.permitAll (fillingSteps lines.length)) ∧
      d.Begun place lines.flatten after ∧
      (d.permitAll (fillingSteps lines.length) = .ok () →
        after = d.put place (.file lines.flatten)) := by
  obtain ⟨part, hpart, hlines⟩ :=
    @exists_writeLines_put d place [] [] List.nil_prefix 0 lines
  rw [List.nil_append] at hpart hlines
  have hbegun : d.Begun place lines.flatten (d.put place (.file part)) := .inr ⟨part, hpart, rfl⟩
  have hwhole : d.Begun place lines.flatten (d.put place (.file lines.flatten)) :=
    .inr ⟨_, List.prefix_refl _, rfl⟩
  rw [fillFile, createFile, h, fillingSteps, permitAll_cons, permitAll_append]
  cases hcreate : d.permit .create with
  | error fault => exact ⟨d, rfl, .inl rfl, fun hok => by cases hok⟩
  | ok =>
    simp only [bind, Except.bind, hlines]
    cases hsteps : d.permitAll (lineSteps 0 lines.length) with
    | error fault => exact ⟨_, rfl, hbegun, fun hok => by cases hok⟩
    | ok =>
      simp only [Except.map, flush, permit_put, permitAll_flush_sync]
      cases hflush : d.permit .flush with
      | error fault => exact ⟨_, rfl, hbegun, fun hok => by cases hok⟩
      | ok => exact ⟨_, by rw [put_put]; rfl, hwhole, fun _ => rfl⟩

theorem putFile_eq_ok {content : Bytes} {after : Disk} (h : d.putFile path content = .ok after) :
    d.filePlace path = .ok (placeOf path) ∧ after = d.put (placeOf path) (.file content) := by
  obtain ⟨place, hplace, h⟩ := Except.bind_eq_ok_iff.1 h
  obtain ⟨_, -, h⟩ := Except.bind_eq_ok_iff.1 h
  obtain rfl := (filePlace_eq_ok hplace).2.1
  exact ⟨hplace, (Except.ok.inj h).symm⟩

end LoadReplay.Disk
