import LoadReplay.Proofs.Url.Path
import LoadReplay.Target

/-!
# URLs below the address of a server

The address of a server is a scheme, a host and an optional port. What is written behind a slash
after it does not change how it is read (`ofAuthority_append`): the text as a whole is a URL if and
only if the address is one, and it leads to the same server (`Origin.ofText_append`).
-/

namespace LoadReplay

namespace Url

variable {authority rest tail front back : List Char} {scheme : Scheme}

/-! ## The beginning of a text -/

/-- A text is read up to the first character that is not of a kind. -/
theorem takeWhile_append_stop {p : Char → Bool} (hfront : ∀ c ∈ front, p c = true)
    (hback : ∀ c ∈ back.head?, p c = false) : (front ++ back).takeWhile p = front := by
  rw [List.takeWhile_append_of_pos hfront]
  rcases back with _ | ⟨c, back⟩
  · exact List.append_nil front
  · rw [List.takeWhile_cons_of_neg (by rw [hback c rfl]; decide), List.append_nil]

theorem dropWhile_append_stop {p : Char → Bool} (hfront : ∀ c ∈ front, p c = true)
    (hback : ∀ c ∈ back.head?, p c = false) : (front ++ back).dropWhile p = back := by
  rw [List.dropWhile_append_of_pos hfront]
  rcases back with _ | ⟨c, back⟩
  · rfl
  · exact List.dropWhile_cons_of_neg (by rw [hback c rfl]; decide)

/-! ## Reading the address in front of a path -/

/-- What the text of a host and a port consists of: no blanks, no controls, and no characters that
would end them or set a user name apart. -/
def IsAuthority (cs : List Char) : Prop :=
  ∀ c ∈ cs, 0x20 < c.toNat ∧ c ∉ ['/', '\\', '?', '#', '@']

instance (cs : List Char) : Decidable (IsAuthority cs) := List.decidableBAll _ cs

theorem IsAuthority.of_mem (h : IsAuthority authority) {c : Char} (hc : c ∈ authority) :
    endsAuthority true c = false ∧ c ≠ '@' ∧ (isSlash c || c == '?' || c == '#') = false := by
  have hmark := (h c hc).2
  simp only [List.mem_cons, List.not_mem_nil, or_false, not_or] at hmark
  simp [endsAuthority, isSlash, hmark]

/-- There is no user name in front of a host. -/
theorem splitUserinfo_append (h : IsAuthority authority) (rest : List Char)
    (hrest : ∀ c ∈ rest.head?, endsAuthority true c = true) :
    splitUserinfo true (authority ++ rest) = .ok ("", "", authority ++ rest) := by
  have hbefore : ∀ c ∈ authority, (!endsAuthority true c) = true := fun c hc => by
    rw [(h.of_mem hc).1]
    rfl
  have hstop : ∀ c ∈ rest.head?, (!endsAuthority true c) = false := fun c hc => by
    rw [hrest c hc]
    rfl
  have hnone : ∀ c ∈ authority.reverse, (c != '@') = true := fun c hc =>
    bne_iff_ne.2 (h.of_mem (List.mem_reverse.1 hc)).2.1
  rw [splitUserinfo, takeWhile_append_stop hbefore hstop, List.takeWhile_eq_self_iff.2 hnone,
    List.reverse_reverse]
  exact if_pos rfl

/-- The host is read up to the slash at most. -/
theorem splitHost_append (bracketed : Bool) (cs tail : List Char) :
    splitHost true bracketed (cs ++ '/' :: tail) =
      ((splitHost true bracketed cs).1, (splitHost true bracketed cs).2 ++ '/' :: tail) := by
  induction cs generalizing bracketed with
  | nil => rfl
  | cons c cs ih =>
    rw [List.cons_append, splitHost, splitHost]
    split
    · rfl
    · dsimp only
      rw [ih]

/-- Behind the host there is nothing but a port. -/
theorem splitHost_rest (h : IsAuthority authority) (bracketed : Bool) :
    (splitHost true bracketed authority).2 = [] ∨
      ∃ port, (splitHost true bracketed authority).2 = ':' :: port ∧ IsAuthority port := by
  induction authority generalizing bracketed with
  | nil => exact .inl rfl
  | cons c cs ih =>
    have hcs : IsAuthority cs := fun d hd => h d (List.mem_cons_of_mem _ hd)
    rw [splitHost]
    split
    next hstop =>
      rw [(h.of_mem List.mem_cons_self).1, Bool.false_or, Bool.and_eq_true, beq_iff_eq] at hstop
      exact .inr ⟨cs, by rw [hstop.1], hcs⟩
    next => exact ih hcs _

/-- The port that digits denote. -/
def portOf (digits : List Char) : Except UrlFault (Option ℕ) :=
  let port := digits.foldl (fun n c => 10 * n + (c.toNat - '0'.toNat)) 0
  if 65535 < port then .error .port else .ok (if digits.isEmpty then none else some port)

/-- The text may stand behind a port. -/
def followsPort (cs : List Char) : Bool :=
  !cs.head?.any fun c => !(isSlash c || c == '?' || c == '#')

theorem splitPort_digits {digits : List Char} (hdigits : ∀ c ∈ digits, c.isDigit = true)
    (rest : List Char) (hrest : ∀ c ∈ rest.head?, c.isDigit = false) : splitPort (digits ++ rest) =
      if followsPort rest then (portOf digits).map (·, rest) else .error .port := by
  rw [splitPort, takeWhile_append_stop hdigits hrest, dropWhile_append_stop hdigits hrest,
    followsPort, portOf]
  split_ifs <;> simp_all [Except.map]

/-- A port is read up to the slash, and there is nothing else before it. -/
theorem splitPort_append (h : IsAuthority authority) (tail : List Char) :
    (∃ fault, splitPort authority = .error fault ∧
      splitPort (authority ++ '/' :: tail) = .error fault) ∨
    ∃ port, splitPort authority = .ok (port, []) ∧
      splitPort (authority ++ '/' :: tail) = .ok (port, '/' :: tail) := by
  obtain ⟨digits, rest, rfl, hdigits, hrest⟩ : ∃ digits rest, authority = digits ++ rest ∧
      (∀ c ∈ digits, c.isDigit = true) ∧ ∀ c ∈ rest.head?, c.isDigit = false :=
    ⟨authority.takeWhile Char.isDigit, authority.dropWhile Char.isDigit,
      List.takeWhile_append_dropWhile.symm, fun c hc => List.mem_takeWhile_imp hc,
      fun c hc => by
        have hnot := List.head?_dropWhile_not Char.isDigit authority
        rw [Option.mem_def.1 hc] at hnot
        simpa using hnot⟩
  rcases rest with _ | ⟨c, rest⟩
  · have hslash : ∀ c ∈ ('/' :: tail).head?, c.isDigit = false := fun c hc => by cases hc; decide
    have hself := splitPort_digits hdigits [] (fun _ hc => by cases hc)
    have happend := splitPort_digits hdigits _ hslash
    rw [List.append_nil] at *
    rw [hself, happend]
    cases portOf digits with
    | error fault => exact .inl ⟨fault, rfl, rfl⟩
    | ok port => exact .inr ⟨port, rfl, rfl⟩
  · have hstuck (tail : List Char) : followsPort (c :: tail) = false := by
      have hmem : c ∈ digits ++ c :: rest := List.mem_append_right _ List.mem_cons_self
      simp [followsPort, (h.of_mem hmem).2.2]
    have happend := splitPort_digits hdigits (c :: (rest ++ '/' :: tail)) hrest
    rw [splitPort_digits hdigits _ hrest, List.append_assoc, List.cons_append, happend, hstuck,
      hstuck]
    exact .inl ⟨.port, rfl, rfl⟩

theorem optionalPort_append (h : IsAuthority authority) (bracketed : Bool) (tail : List Char) :
    (∃ fault, optionalPort (splitHost true bracketed authority).2 = .error fault ∧
      optionalPort ((splitHost true bracketed authority).2 ++ '/' :: tail) = .error fault) ∨
    ∃ port, optionalPort (splitHost true bracketed authority).2 = .ok (port, []) ∧
      optionalPort ((splitHost true bracketed authority).2 ++ '/' :: tail) =
        .ok (port, '/' :: tail) := by
  rcases splitHost_rest h bracketed with hnone | ⟨port, hport, hauthority⟩
  · rw [hnone]
    exact .inr ⟨none, rfl, rfl⟩
  · rw [hport]
    exact splitPort_append hauthority tail

/-- The URL with the path, the query and the fragment in a text. -/
def below (u : Url) (cs : List Char) : Url :=
  let (path, rest) := splitPath [] cs
  let (query, fragment) := queryAndFragment rest
  { u with path, query, fragment }

theorem below_path (u : Url) (cs : List Char) : (u.below cs).path = (splitPath [] cs).1 := rfl

theorem below_eq (u : Url) (cs : List Char) : u.below cs =
    { u with
      path := (u.below cs).path
      query := (u.below cs).query
      fragment := (u.below cs).fragment } :=
  rfl

/-- A path behind an address leaves the address as it is. -/
theorem ofAuthority_append (h : IsAuthority authority) (tail : List Char) :
    ofAuthority scheme (authority ++ '/' :: tail) =
      (ofAuthority scheme authority).map (·.below tail) := by
  have hself := splitUserinfo_append h [] (fun _ hc => by cases hc)
  rw [List.append_nil] at hself
  have happend := splitUserinfo_append h ('/' :: tail) (fun _ hc => by cases hc; decide)
  have hport := optionalPort_append h false tail
  rw [ofAuthority, ofAuthority, hself, happend]
  simp only [bind, Except.bind]
  rw [splitHost_append]
  dsimp only
  split
  · rfl
  · cases Host.ofText (splitHost true false authority).1 with
    | error fault => rfl
    | ok host =>
      rcases hport with ⟨fault, hself, happend⟩ | ⟨port, hself, happend⟩
      · dsimp only
        rw [hself, happend]
        rfl
      · dsimp only
        rw [hself, happend]
        rfl

/-! ## Addresses -/

/-- A scheme in front of a colon, in upper or in lower case. -/
theorem splitScheme?_append {name : List Char} (h : name.map Char.toLower = scheme.text.toList)
    (rest : List Char) :
    splitScheme? (name ++ ':' :: rest) = some (scheme.text.toList, rest) := by
  have hletters : ∀ c ∈ scheme.text.toList, c.isAlpha = true :=
    List.all_eq_true.1 (by cases scheme <;> decide)
  have hname : ∀ c ∈ name, c.isAlpha = true := fun c hc =>
    isAlpha_of_toLower (hletters _ (h ▸ List.mem_map_of_mem hc))
  obtain ⟨first, others, rfl⟩ : ∃ first others, name = first :: others := by
    rcases name with _ | ⟨first, others⟩
    · cases scheme <;> cases h
    · exact ⟨first, others, rfl⟩
  have hpart : ∀ c ∈ first :: others,
      (c.isAlphanum || c == '+' || c == '-' || c == '.') = true := fun c hc => by
    have halphanum : c.isAlphanum = true := Bool.or_eq_true_iff.2 (.inl (hname c hc))
    simp [halphanum]
  have hcolon : ∀ c ∈ (':' :: rest).head?,
      (c.isAlphanum || c == '+' || c == '-' || c == '.') = false := fun c hc => by
    cases hc
    decide
  rw [splitScheme?.eq_def]
  dsimp only
  rw [takeWhile_append_stop hpart hcolon, dropWhile_append_stop hpart hcolon, h]
  exact if_pos (hname first List.mem_cons_self)

/-- The text without tabs and line breaks, if it has no blanks or controls at its ends. -/
theorem cleaned_eq {text : String} (hfirst : ∀ c ∈ text.toList.head?, 0x20 < c.toNat)
    (hlast : ∀ c ∈ text.toList.getLast?, 0x20 < c.toNat) :
    cleaned text = text.toList.filter isKept := by
  have hkeep {cs : List Char} (h : ∀ c ∈ cs.head?, 0x20 < c.toNat) :
      cs.dropWhile (fun c => decide (c.toNat ≤ 0x20)) = cs := by
    rcases cs with _ | ⟨c, cs⟩
    · rfl
    · exact List.dropWhile_cons_of_neg fun hle => Nat.not_le.2 (h c rfl) (of_decide_eq_true hle)
  rw [cleaned, hkeep hfirst, hkeep (by rwa [List.head?_reverse]), List.reverse_reverse]
  rfl

theorem isKept_of_lt {c : Char} (h : 0x20 < c.toNat) : isKept c = true := by
  have hne {d : Char} (hd : d.toNat ≤ 0x20) : c ≠ d := by
    rintro rfl
    omega
  simp [isKept, hne]

theorem ofScheme_append (h : IsAuthority authority) (hne : authority ≠ []) (rest : List Char) :
    ofScheme scheme.text ('/' :: '/' :: (authority ++ rest)) =
      (ofAuthority scheme (authority ++ rest)).map .web := by
  have hslashes : ('/' :: '/' :: (authority ++ rest)).dropWhile isSlash = authority ++ rest := by
    rcases authority with _ | ⟨c, cs⟩
    · exact absurd rfl hne
    · have hstop : isSlash c = false := by
        have hmarks := (h.of_mem (List.mem_cons_self (a := c))).2.2
        exact (Bool.or_eq_false_iff.1 (Bool.or_eq_false_iff.1 hmarks).1).1
      have hkept : (c :: (cs ++ rest)).dropWhile isSlash = c :: (cs ++ rest) :=
        List.dropWhile_cons_of_neg (by rw [hstop]; decide)
      exact hkept
  cases scheme
  all_goals
    change (ofAuthority _ (List.dropWhile isSlash _)).map _ = _
    rw [hslashes]

end Url

/-- The address of a server: a scheme, in upper or in lower case, a host and an optional port. -/
structure Origin where
  scheme : Scheme
  name : List Char
  authority : List Char
  name_eq : name.map Char.toLower = scheme.text.toList
  authority_ne : authority ≠ []
  isAuthority : Url.IsAuthority authority

namespace Origin

/-- The address in writing. -/
def text (o : Origin) : String := String.ofList (o.name ++ ':' :: '/' :: '/' :: o.authority)

/-- The address in writing, with slashes behind it. -/
def textWith (o : Origin) (slashes : ℕ) : String :=
  o.text ++ String.ofList (List.replicate slashes '/')

theorem toList_text (o : Origin) : o.text.toList = o.name ++ ':' :: '/' :: '/' :: o.authority :=
  String.toList_ofList

theorem lt_of_mem_name (o : Origin) {c : Char} (h : c ∈ o.name) : 0x20 < c.toNat := by
  have hletters : o.scheme.text.toList.all (fun c => decide (97 ≤ c.toNat)) = true := by
    cases o.scheme <;> decide
  have hletter := of_decide_eq_true
    (List.all_eq_true.1 hletters _ (o.name_eq ▸ List.mem_map_of_mem h))
  rcases Url.toLower_cases (c := c) rfl with heq | ⟨hlow, -, -⟩
  · rw [← heq] at hletter
    omega
  · omega

/-- There are no blanks and no controls in an address. -/
theorem lt_of_mem_text (o : Origin) {c : Char} (h : c ∈ o.text.toList) : 0x20 < c.toNat := by
  rw [toList_text] at h
  rcases List.mem_append.1 h with h | h
  · exact o.lt_of_mem_name h
  · rcases List.mem_append.1 (show c ∈ [':', '/', '/'] ++ o.authority from h) with h | h
    · have hmarks : [':', '/', '/'].all (fun c => decide (0x20 < c.toNat)) = true := by decide
      exact of_decide_eq_true (List.all_eq_true.1 hmarks c h)
    · exact (o.isAuthority c h).1

theorem getLast?_text (o : Origin) : o.text.toList.getLast? = o.authority.getLast? := by
  rw [toList_text, List.getLast?_append_of_ne_nil _ (List.cons_ne_nil _ _)]
  exact List.getLast?_append_of_ne_nil [':', '/', '/'] o.authority_ne

theorem withoutSlashes_textWith (o : Origin) (slashes : ℕ) :
    Target.withoutSlashes (o.textWith slashes) = o.text := by
  have hslashes : ∀ c ∈ List.replicate slashes '/', (c == '/') = true := fun c hc =>
    beq_iff_eq.2 (List.eq_of_mem_replicate hc)
  have hlast : ∀ c ∈ o.text.toList.reverse.head?, (c == '/') = false := fun c hc => by
    rw [List.head?_reverse, getLast?_text] at hc
    refine beq_eq_false_iff_ne.2 fun heq => ?_
    exact (o.isAuthority c (List.mem_of_getLast? hc)).2 (heq ▸ List.mem_cons_self)
  rw [Target.withoutSlashes, textWith, String.toList_append, String.toList_ofList,
    List.reverse_append, List.reverse_replicate, Url.dropWhile_append_stop hslashes hlast,
    List.reverse_reverse, String.ofList_toList]

/-- A text that begins with an address is read as the address is, and what is behind it. -/
theorem ofText_append (o : Origin) (tail : String)
    (hlast : ∀ c ∈ tail.toList.getLast?, 0x20 < c.toNat) :
    Reference.ofText (o.text ++ tail) =
      (Url.ofAuthority o.scheme (o.authority ++ tail.toList.filter Url.isKept)).map .web := by
  have hkept : o.text.toList.filter Url.isKept = o.text.toList :=
    List.filter_eq_self.2 fun c hc => Url.isKept_of_lt (o.lt_of_mem_text hc)
  have hne : o.text.toList ≠ [] := by
    rw [toList_text]
    exact List.append_ne_nil_of_right_ne_nil _ (List.cons_ne_nil _ _)
  have hfirst : ∀ c ∈ (o.text ++ tail).toList.head?, 0x20 < c.toNat := fun c hc => by
    rw [String.toList_append, List.head?_append_of_ne_nil _ hne] at hc
    exact o.lt_of_mem_text (List.mem_of_mem_head? hc)
  have hend : ∀ c ∈ (o.text ++ tail).toList.getLast?, 0x20 < c.toNat := fun c hc => by
    rw [String.toList_append, List.getLast?_append, Option.mem_def, Option.or_eq_some_iff] at hc
    rcases hc with hc | ⟨-, hc⟩
    · exact hlast c hc
    · exact o.lt_of_mem_text (List.mem_of_getLast? hc)
  rw [Reference.ofText, Url.cleaned_eq hfirst hend, String.toList_append, List.filter_append, hkept,
    toList_text, List.append_assoc, List.cons_append, Url.splitScheme?_append o.name_eq]
  change Url.ofScheme (String.ofList o.scheme.text.toList) _ = _
  rw [String.ofList_toList]
  exact Url.ofScheme_append o.isAuthority o.authority_ne _

end Origin

end LoadReplay
