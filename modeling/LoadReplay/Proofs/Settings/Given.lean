import LoadReplay.Proofs.Except
import LoadReplay.Settings.CommandLine

/-!
# What a command line gives

A command line that is read has checked the value of each option (`CommandLine.checked_read`), so
its layer leaves a setting open exactly when the option is not given. A variable of the environment
gives an option that the arguments themselves do not give (`CommandLine.value?_of_read`).
-/

namespace LoadReplay

/-- The value of the variable that stands in for an option. -/
def CommandOption.standIn? (environment : List (String × String)) (o : CommandOption) :
    Option String :=
  o.environmentName?.bind (environment.lookup ·)

namespace CommandLine

variable {environment : List (String × String)} {allowed : List CommandOption}
  {given after : GivenOptions} {p q : Progress} {o other : CommandOption} {value s : String}

/-! ## Adding options -/

/-- Every option is given with a value that it can have. -/
def Checked (given : GivenOptions) : Prop :=
  ∀ entry ∈ given, entry.1.check entry.2 = .ok ()

theorem checked_nil : Checked [] := nofun

theorem any_eq_false_iff : given.any (·.1 == o) = false ↔ given.lookup o = none := by
  rw [List.any_eq_false, List.lookup_eq_none_iff]
  exact forall₂_congr fun entry _ => by rw [beq_iff_eq, bne_iff_ne, ne_eq, eq_comm]

theorem give_eq_ok_iff : give given o value = .ok after ↔
    given.lookup o = none ∧ o.check value = .ok () ∧ after = given ++ [(o, value)] := by
  rw [give, ← any_eq_false_iff]
  cases given.any (·.1 == o) with
  | true => simp
  | false => cases hcheck : o.check value <;> simp [Except.map, eq_comm]

theorem checked_give (hgiven : Checked given) (h : give given o value = .ok after) :
    Checked after := by
  obtain ⟨-, hcheck, rfl⟩ := give_eq_ok_iff.1 h
  exact List.forall_mem_append.2 ⟨hgiven, List.forall_mem_singleton.2 hcheck⟩

theorem checked_settle (hp : Checked p.given) (h : settle p = .ok after) : Checked after := by
  rw [settle] at h
  split at h
  · exact Except.ok.inj h ▸ hp
  · cases h
  · exact checked_give hp h

/-! ## Words -/

/-- One word settles the option before it and may give a flag or an option with its value. -/
theorem given_of_step (h : step allowed p s = .ok q) :
    q.given = p.given ∨ ∃ settled, settle p = .ok settled ∧
      (q.given = settled ∨ ∃ o value, give settled o value = .ok q.given) := by
  unfold step at h
  split at h
  · obtain ⟨_, -, h⟩ := Except.bind_eq_ok_iff.1 h
    cases h
  · cases h
  · split at h
    · obtain ⟨_, -, h⟩ := Except.bind_eq_ok_iff.1 h
      cases h
    · cases h
  · split at h
    · cases h
    · split at h
      · cases h
      · obtain ⟨settled, hsettled, h⟩ := Except.bind_eq_ok_iff.1 h
        obtain ⟨after, hafter, h⟩ := Except.bind_eq_ok_iff.1 h
        cases h
        exact .inr ⟨settled, hsettled, .inr ⟨_, _, hafter⟩⟩
    · split at h
      · obtain ⟨settled, hsettled, h⟩ := Except.bind_eq_ok_iff.1 h
        obtain ⟨after, hafter, h⟩ := Except.bind_eq_ok_iff.1 h
        cases h
        exact .inr ⟨settled, hsettled, .inr ⟨_, _, hafter⟩⟩
      · obtain ⟨settled, hsettled, h⟩ := Except.bind_eq_ok_iff.1 h
        cases h
        exact .inr ⟨settled, hsettled, .inl rfl⟩
  · split at h
    · cases h
      exact .inl rfl
    · cases h

theorem checked_step (hp : Checked p.given) (h : step allowed p s = .ok q) : Checked q.given := by
  rcases given_of_step h with hq | ⟨settled, hsettled, hq | ⟨o, value, hq⟩⟩
  · exact hq ▸ hp
  · exact hq ▸ checked_settle hp hsettled
  · exact checked_give (checked_settle hp hsettled) hq

theorem checked_words {args : List String} (hp : Checked p.given)
    (h : words allowed p args = .ok given) : Checked given := by
  induction args generalizing p with
  | nil => exact checked_settle hp h
  | cons s rest ih =>
    rw [words] at h
    split at h
    · split at h
      · exact checked_settle hp h
      · cases h
    · split at h
      next q hq => exact ih (checked_step hp hq) h
      next => cases h

/-! ## Variables -/

/-- Adds the value of the variable for one option. -/
def addVariable (environment : List (String × String)) (given : GivenOptions) (o : CommandOption) :
    Except UsageFault GivenOptions :=
  match o.standIn? environment with
  | some value => if given.any (·.1 == o) then .ok given else give given o value
  | none => .ok given

theorem addVariables_cons (os : List CommandOption) :
    addVariables environment (o :: os) given =
      addVariable environment given o >>= addVariables environment os :=
  List.foldlM_cons ..

theorem checked_addVariable (hgiven : Checked given)
    (h : addVariable environment given o = .ok after) : Checked after := by
  rw [addVariable] at h
  split at h
  · split at h
    · exact Except.ok.inj h ▸ hgiven
    · exact checked_give hgiven h
  · exact Except.ok.inj h ▸ hgiven

/-- A variable counts where its option is not given. -/
theorem lookup_of_addVariable (h : addVariable environment given o = .ok after)
    (other : CommandOption) : after.lookup other =
      (given.lookup other).or (if other = o then o.standIn? environment else none) := by
  rw [addVariable] at h
  cases hvariable : o.standIn? environment with
  | none =>
    rw [hvariable] at h
    obtain rfl := Except.ok.inj h
    simp
  | some value =>
    rw [hvariable] at h
    dsimp only at h
    split at h
    next hany =>
      obtain rfl := Except.ok.inj h
      have hgiven : given.lookup o ≠ none := fun hnone => by
        rw [← any_eq_false_iff, hany] at hnone
        cases hnone
      obtain ⟨own, hown⟩ := Option.ne_none_iff_exists'.1 hgiven
      split_ifs with heq
      · rw [heq, hown, Option.some_or]
      · rw [Option.or_none]
    next =>
      obtain ⟨-, -, rfl⟩ := give_eq_ok_iff.1 h
      rw [List.lookup_append, List.lookup_cons]
      by_cases heq : other = o
      · simp [heq]
      · simp [heq, beq_eq_false_iff_ne.2 heq]

theorem checked_addVariables (hgiven : Checked given)
    (h : addVariables environment allowed given = .ok after) : Checked after := by
  induction allowed generalizing given with
  | nil => exact Except.ok.inj h ▸ hgiven
  | cons o os ih =>
    rw [addVariables_cons] at h
    obtain ⟨between, hbetween, h⟩ := Except.bind_eq_ok_iff.1 h
    exact ih (checked_addVariable hgiven hbetween) h

theorem lookup_of_addVariables (h : addVariables environment allowed given = .ok after)
    (other : CommandOption) : after.lookup other =
      (given.lookup other).or
        (if other ∈ allowed then other.standIn? environment else none) := by
  induction allowed generalizing given with
  | nil =>
    obtain rfl := Except.ok.inj h
    simp
  | cons o os ih =>
    rw [addVariables_cons] at h
    obtain ⟨between, hbetween, h⟩ := Except.bind_eq_ok_iff.1 h
    rw [ih h, lookup_of_addVariable hbetween]
    by_cases heq : other = o
    · subst heq
      cases other.standIn? environment <;> simp
    · simp [heq]

theorem addVariables_of_no_environment (allowed : List CommandOption) (given : GivenOptions) :
    addVariables [] allowed given = .ok given := by
  induction allowed with
  | nil => rfl
  | cons o os ih =>
    have hvariable : o.standIn? [] = none := by cases o <;> rfl
    rw [addVariables_cons, addVariable, hvariable]
    exact ih

/-! ## Reading -/

variable {args : List String} {c : CommandLine}

theorem read_eq_ok_iff : read environment args = .ok c ↔
    ∃ name rest own, args = name :: rest ∧ subcommand? name = some c.subcommand ∧
      words (CommandOption.allowed c.subcommand) ⟨[], none⟩ rest = .ok own ∧
      addVariables environment (CommandOption.allowed c.subcommand) own = .ok c.given := by
  constructor
  · intro h
    cases args with
    | nil => cases h
    | cons name rest =>
      unfold read at h
      dsimp only at h
      split at h
      next subcommand _ hname =>
        obtain ⟨own, hown, h⟩ := Except.bind_eq_ok_iff.1 h
        obtain ⟨given, hgiven, h⟩ := Except.bind_eq_ok_iff.1 h
        obtain rfl := Except.ok.inj h
        exact ⟨name, rest, own, rfl, hname, hown, hgiven⟩
      next =>
        split at h
        · cases h
        · split at h <;> cases h
      all_goals cases h
  · rintro ⟨name, rest, own, rfl, hname, hown, hgiven⟩
    unfold read
    dsimp only
    rw [hname]
    exact Except.bind_eq_ok_iff.2 ⟨own, hown, Except.bind_eq_ok_iff.2 ⟨c.given, hgiven, rfl⟩⟩

theorem checked_read (h : read environment args = .ok c) : Checked c.given := by
  obtain ⟨name, rest, own, -, -, hown, hgiven⟩ := read_eq_ok_iff.1 h
  exact checked_addVariables (checked_words checked_nil hown) hgiven

/-- The arguments count more than the variables of the environment. -/
theorem value?_of_read (h : read environment args = .ok c) :
    ∃ own, read [] args = .ok own ∧ own.subcommand = c.subcommand ∧
      ∀ o ∈ CommandOption.allowed c.subcommand,
        c.value? o = (own.value? o).or (o.standIn? environment) := by
  obtain ⟨name, rest, own, hargs, hname, hown, hgiven⟩ := read_eq_ok_iff.1 h
  refine ⟨⟨c.subcommand, own⟩, read_eq_ok_iff.2 ⟨name, rest, own, hargs, hname, hown, ?_⟩, rfl,
    fun o ho => ?_⟩
  · exact addVariables_of_no_environment ..
  · rw [value?, lookup_of_addVariables hgiven, if_pos ho, value?]

/-! ## Settings that are left open -/

theorem check_of_value? (hc : Checked c.given) (h : c.value? o = some value) :
    o.check value = .ok () := by
  obtain ⟨before, behind, hgiven, -⟩ := List.lookup_eq_some_iff.1 h
  exact hc (o, value) (hgiven ▸ List.mem_append_cons_self)

/-- A value that must be known is refused if it is not. -/
theorem eq_true_of_known {isKnown : Bool}
    (h : (if isKnown then .ok () else .error .badValue : Except UsageFault Unit) = .ok ()) :
    isKnown = true := by
  cases isKnown with
  | true => rfl
  | false => cases h

theorem isSome_of_check_pacing (h : CommandOption.check .pacing value = .ok ()) :
    (Pacing.ofText value).toOption.isSome = true := by
  have hknown : (Pacing.ofText value).toBool = true := eq_true_of_known h
  cases hpacing : Pacing.ofText value with
  | ok pacing => rfl
  | error fault => simp [hpacing, Except.toBool] at hknown

/-- An option whose values are checked to be readable gives its setting. -/
theorem bind_value?_eq_none_iff {α : Type} {read? : String → Option α} (hc : Checked c.given)
    (hread : ∀ value, o.check value = .ok () → (read? value).isSome = true) :
    (c.value? o).bind read? = none ↔ c.value? o = none := by
  cases hvalue : c.value? o with
  | none => simp
  | some value =>
    have hsome := hread value (check_of_value? hc hvalue)
    rw [Option.isSome_iff_ne_none] at hsome
    simp [hsome]

end CommandLine

end LoadReplay
