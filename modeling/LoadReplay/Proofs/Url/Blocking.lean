import LoadReplay.Proofs.Except
import LoadReplay.Proofs.Url.Query
import LoadReplay.Settings.Options

/-!
# The flag in a query

Setting the parameter `blocking` writes the query anew from its pairs. A written query is read back
pair for pair, stands in a URL as it was written, and ends where the fragment begins, so the flag
comes behind the other parameters, nothing else of the URL changes, and what was set before does
not matter (`Target.withBlocking_laws`).

The parameters are kept as texts, not as they were written. Two URLs that differ in the value of one
other parameter are told apart with the flag if and only if the values are read as different texts
(`ReplayOptions.told_apart_iff`): always where their bytes are text, but bytes that are no text all
become the same replacement character (`ReplayOptions.values_blurred`).
-/

namespace LoadReplay

namespace Url

/-! ## Escaped characters -/

section Escapes

variable {isEscaped : Char → Bool}

theorem percentEncode_of_forall {cs : List Char} (h : ∀ c ∈ cs, isEscaped c = false) :
    percentEncode isEscaped cs = cs := by
  induction cs with
  | nil => rfl
  | cons c cs ih =>
    obtain ⟨hc, hcs⟩ := List.forall_mem_cons.1 h
    rw [percentEncode, List.flatMap_cons, hc, ← percentEncode, ih hcs]
    rfl

/-- Nothing is left to be escaped if digits and the percent sign are not. -/
theorem not_escaped_of_mem_percentEncode (hpercent : isEscaped '%' = false)
    (hdigit : ∀ n < 16, isEscaped (hexDigit n) = false) {c : Char} {cs : List Char}
    (h : c ∈ percentEncode isEscaped cs) : isEscaped c = false := by
  obtain ⟨d, -, hd⟩ := List.mem_flatMap.1 h
  split at hd
  · obtain ⟨b, -, hb⟩ := List.mem_flatMap.1 hd
    rcases eq_of_mem_escapeByte hb with rfl | ⟨n, hn, rfl⟩
    · exact hpercent
    · exact hdigit n hn
  · next hkept =>
    rw [List.mem_singleton.1 hd]
    exact Bool.eq_false_iff.2 hkept

end Escapes

/-! ## Parts of the text -/

/-- The text in front of the query. -/
def front (u : Url) : String :=
  u.scheme.text ++ "://" ++ u.userinfoText ++ u.authority ++ u.pathText

/-- The query in writing, with its mark. -/
def queryText (u : Url) : String := u.query.elim "" ("?" ++ ·)

/-- The fragment in writing, with its mark. -/
def fragmentText (u : Url) : String := u.fragment.elim "" ("#" ++ ·)

theorem text_eq (u : Url) : u.text = u.front ++ (u.queryText ++ u.fragmentText) := by
  obtain ⟨scheme, username, password, host, port, path, query, fragment⟩ := u
  cases query <;> cases fragment <;>
    simp only [text, target, front, queryText, fragmentText, Option.elim, String.append_assoc,
      String.append_empty, String.empty_append]

theorem queryPairs_withQueryPairs (u : Url) (ps : List QueryPair) :
    (u.withQueryPairs ps).queryPairs = ps := by
  rw [queryPairs, withQueryPairs]
  exact (congrArg Query.pairs String.toList_ofList).trans (Query.pairs_write ps)

/-- The URL without its query. -/
def withoutQuery (u : Url) : Url := { u with query := none }

theorem front_withoutQuery (u : Url) : u.withoutQuery.front = u.front := rfl

theorem fragmentText_withoutQuery (u : Url) : u.withoutQuery.fragmentText = u.fragmentText := rfl

/-- URLs with the same parts but the query have the same text only if they have the same query. -/
theorem query_eq_of_text_eq {u u' : Url} {q q' : String}
    (hparts : u.withoutQuery = u'.withoutQuery) (hq : u.query = some q) (hq' : u'.query = some q')
    (h : u.text = u'.text) : q = q' := by
  have hfront : u.front = u'.front := by
    rw [← front_withoutQuery, hparts, front_withoutQuery]
  have hfragment : u.fragmentText = u'.fragmentText := by
    rw [← fragmentText_withoutQuery, hparts, fragmentText_withoutQuery]
  rw [text_eq, text_eq, hfront, hfragment, String.append_right_inj, String.append_left_inj,
    queryText, queryText, hq, hq'] at h
  exact (String.append_right_inj _).1 h

theorem text_withQueryPairs_inj {u u' : Url} (hparts : u.withoutQuery = u'.withoutQuery)
    {ps qs : List QueryPair} :
    (u.withQueryPairs ps).text = (u'.withQueryPairs qs).text ↔ ps = qs := by
  constructor
  · intro h
    have hwrite : String.ofList (Query.write ps) = String.ofList (Query.write qs) :=
      @query_eq_of_text_eq (u.withQueryPairs ps) (u'.withQueryPairs qs) _ _ hparts rfl rfl h
    rw [← Query.pairs_write ps, String.ofList_injective hwrite, Query.pairs_write]
  · rintro rfl
    have hsame (v : Url) : v.withQueryPairs ps = v.withoutQuery.withQueryPairs ps := rfl
    rw [hsame u, hparts, ← hsame u']

/-! ## Reading back -/

/-- No character of the fragment is left to be escaped, as in URLs that were read. -/
def FragmentEscaped (u : Url) : Prop :=
  ∀ f ∈ u.fragment, ∀ c ∈ f.toList, escapedInFragment c = false

theorem fragmentOf_fragmentText {u : Url} (h : u.FragmentEscaped) :
    fragmentOf u.fragmentText.toList = u.fragment := by
  rw [fragmentText]
  cases hf : u.fragment with
  | none => rfl
  | some f =>
    rw [Option.elim, String.toList_append]
    change some (String.ofList (percentEncode escapedInFragment f.toList)) = some f
    rw [percentEncode_of_forall (h f hf), String.ofList_toList]

theorem not_escaped_of_mem_fragmentOf {cs : List Char} {f : String} (hf : f ∈ fragmentOf cs)
    {c : Char} (hc : c ∈ f.toList) : escapedInFragment c = false := by
  simp only [fragmentOf] at hf
  split at hf
  · obtain rfl := Option.some.inj hf
    rw [String.toList_ofList] at hc
    exact not_escaped_of_mem_percentEncode (by decide) (by decide) hc
  · exact absurd hf (Option.not_mem_none f)

theorem exists_fragmentOf (cs : List Char) :
    ∃ rest, (queryAndFragment cs).2 = fragmentOf rest := by
  simp only [queryAndFragment]
  split
  · exact ⟨_, rfl⟩
  · exact ⟨cs, rfl⟩

theorem exists_of_ofAuthority {scheme : Scheme} {cs : List Char} {u : Url}
    (h : ofAuthority scheme cs = .ok u) : ∃ rest, u.fragment = (queryAndFragment rest).2 := by
  simp only [ofAuthority, Except.bind_eq_ok_iff] at h
  obtain ⟨userinfo, -, h⟩ := h
  split_ifs at h
  · simp only [Except.bind_eq_ok_iff, reduceCtorEq, false_and, exists_false] at h
  · simp only [Except.bind_eq_ok_iff] at h
    obtain ⟨host, -, port, -, h⟩ := h
    exact ⟨_, (congrArg fragment (Except.ok.inj h)).symm⟩

theorem exists_of_ofScheme {name : String} {cs : List Char} {u : Url}
    (h : ofScheme name cs = .ok (.web u)) : ∃ scheme rest, ofAuthority scheme rest = .ok u := by
  have of_map {x : Except UrlFault Url} (hx : x.map Reference.web = .ok (.web u)) : x = .ok u := by
    cases x <;> simp_all [Except.map]
  simp only [ofScheme] at h
  split at h
  · exact ⟨_, _, of_map h⟩
  · exact ⟨_, _, of_map h⟩
  -- the other schemes lead to no URL of a web server
  all_goals grind

theorem fragmentEscaped_of_ofText {text : String} {u : Url} (h : Target.ofText text = .ok u) :
    u.FragmentEscaped := by
  have hweb : Reference.ofText text = .ok (.web u) := by
    rw [Target.ofText] at h
    split at h <;> simp_all
  have hscheme : ∃ scheme cs, ofScheme scheme cs = .ok (.web u) := by
    simp only [Reference.ofText] at hweb
    split at hweb
    · exact ⟨_, _, hweb⟩
    · exact absurd hweb (by simp)
  obtain ⟨name, rest, hread⟩ := hscheme
  obtain ⟨scheme, cs, hread⟩ := exists_of_ofScheme hread
  obtain ⟨rest, hrest⟩ := exists_of_ofAuthority hread
  obtain ⟨behind, hbehind⟩ := exists_fragmentOf rest
  intro f hf c hc
  rw [hrest, hbehind] at hf
  exact not_escaped_of_mem_fragmentOf hf hc

/-- A query made of pairs is read from the text, and so is the fragment behind it. -/
theorem queryAndFragment_withQueryPairs {u : Url} (h : u.FragmentEscaped) (ps : List QueryPair) :
    queryAndFragment ((u.withQueryPairs ps).queryText ++ u.fragmentText).toList =
      ((u.withQueryPairs ps).query, u.fragment) := by
  have hquery : ∀ c ∈ Query.write ps, (c != '#') = true := by
    intro c hc
    rw [bne_iff_ne]
    rintro rfl
    exact absurd (Query.not_escaped_of_mem_write hc) (by decide)
  have htext : ((u.withQueryPairs ps).queryText ++ u.fragmentText).toList =
      '?' :: (Query.write ps ++ u.fragmentText.toList) := by
    simp [queryText, withQueryPairs]
  have hrest : u.fragmentText.toList.takeWhile (· != '#') = [] ∧
      u.fragmentText.toList.dropWhile (· != '#') = u.fragmentText.toList := by
    rw [fragmentText]
    cases u.fragment <;> simp
  rw [htext]
  simp only [queryAndFragment]
  rw [List.takeWhile_append_of_pos hquery, hrest.1, List.append_nil,
    List.dropWhile_append_of_pos hquery, hrest.2, fragmentOf_fragmentText h,
    percentEncode_of_forall fun c hc => Query.not_escaped_of_mem_write hc]
  rfl

end Url

namespace Target

open Url

theorem queryPairs_withBlocking (u : Url) (b : Bool) :
    (withBlocking u b).queryPairs =
      u.queryPairs.filter (·.1 ≠ blockingName) ++ [(blockingName, blockingValue b)] :=
  queryPairs_withQueryPairs u _

theorem withBlocking_withBlocking (u : Url) (a b : Bool) :
    withBlocking (withBlocking u a) b = withBlocking u b := by
  have hothers : (withBlocking u a).queryPairs.filter (·.1 ≠ blockingName) =
      u.queryPairs.filter (·.1 ≠ blockingName) := by
    rw [queryPairs_withBlocking, List.filter_append, List.filter_filter]
    simp
  rw [withBlocking, hothers, withBlocking, withBlocking]
  rfl

/-- With the flag, a URL has the pairs of the other parameters in their order and the flag behind
them. Nothing else of it changes: in writing, the query alone is replaced, and reading it stops at
the same fragment. Only the flag that was set last counts. -/
theorem withBlocking_laws (u : Url) (a b : Bool) :
    (withBlocking u b).queryPairs =
        u.queryPairs.filter (·.1 ≠ blockingName) ++ [(blockingName, blockingValue b)] ∧
      { withBlocking u b with query := u.query } = u ∧
      (u.text = u.front ++ (u.queryText ++ u.fragmentText) ∧
        (withBlocking u b).text = u.front ++ ((withBlocking u b).queryText ++ u.fragmentText)) ∧
      (∀ text, ofText text = .ok u →
        queryAndFragment ((withBlocking u b).queryText ++ u.fragmentText).toList =
          ((withBlocking u b).query, u.fragment)) ∧
      withBlocking (withBlocking u a) b = withBlocking u b := by
  refine ⟨queryPairs_withBlocking u b, rfl, ⟨text_eq u, text_eq (withBlocking u b)⟩, ?_,
    withBlocking_withBlocking u a b⟩
  intro text h
  exact queryAndFragment_withQueryPairs (fragmentEscaped_of_ofText h) _

/-- The URL `http://h/x` with a query and a fragment. -/
def sampleUrl (query : String) (fragment : Option String) : Url :=
  { scheme := .http, username := "", password := "", host := .domain "h", port := none,
    path := ["x"], query := some query, fragment }

theorem withBlocking_laws_sample :
    ofText "http://h/x?k=a+b&bl%6Fcking=no#end" =
        .ok (sampleUrl "k=a+b&bl%6Fcking=no" (some "end")) ∧
      withBlocking (sampleUrl "k=a+b&bl%6Fcking=no" (some "end")) true =
        sampleUrl "k=a+b&blocking=true" (some "end") ∧
      queryAndFragment ("?k=a+b&blocking=true" ++ "#end").toList =
        (some "k=a+b&blocking=true", some "end") := by
  have hread : ofText "http://h/x?k=a+b&bl%6Fcking=no#end" =
      .ok (sampleUrl "k=a+b&bl%6Fcking=no" (some "end")) := by
    decide +kernel
  have hset : withBlocking (sampleUrl "k=a+b&bl%6Fcking=no" (some "end")) true =
      sampleUrl "k=a+b&blocking=true" (some "end") := by
    decide +kernel
  obtain ⟨-, -, -, hback, -⟩ :=
    withBlocking_laws (sampleUrl "k=a+b&bl%6Fcking=no" (some "end")) false true
  rw [hset] at hback
  exact ⟨hread, hset, hback _ hread⟩

end Target

namespace Url

/-! ## One parameter of two URLs -/

/-- A part of a query is a parameter, with a name and a value as they are written. -/
def Query.IsParameter (part name value : List Char) : Prop :=
  part ≠ [] ∧ halves part = (name, value)

/-- The parts of the query between its separators. -/
def queryParts? (u : Url) : Option (List (List Char)) :=
  u.query.map fun q => Text.splitOn '&' q.toList

/-- Two URLs are the same but for the value of one parameter that is not the flag. The value is
`value` in one and `value'` in the other, as they are written. -/
structure DifferInValue (u u' : Url) (name value value' : List Char) : Prop where
  others : u.withoutQuery = u'.withoutQuery
  parts : ∃ before part part' after,
    u.queryParts? = some (before ++ part :: after) ∧
      u'.queryParts? = some (before ++ part' :: after) ∧
      Query.IsParameter part name value ∧ Query.IsParameter part' name value'
  name_ne : Query.decode name ≠ Target.blockingName

/-- The pairs in parts of a query. -/
def Query.pairsOf (parts : List (List Char)) : List QueryPair := (parts.filter (· ≠ [])).map pairOf

theorem queryPairs_of_parts {u : Url} {before after : List (List Char)}
    {part name value : List Char} (hparts : u.queryParts? = some (before ++ part :: after))
    (hpart : Query.IsParameter part name value) :
    u.queryPairs = Query.pairsOf before ++
      (Query.decode name, Query.decode value) :: Query.pairsOf after := by
  obtain ⟨q, hq, hsplit⟩ := Option.map_eq_some_iff.1 hparts
  have hkept : (part :: after).filter (· ≠ []) = part :: after.filter (· ≠ []) :=
    List.filter_cons_of_pos (decide_eq_true hpart.1)
  simp only [queryPairs, hq, Query.pairs, hsplit]
  rw [List.filter_append, hkept, List.map_append, List.map_cons, Query.pairOf_eq, hpart.2]
  rfl

namespace DifferInValue

variable {u u' : Url} {name value value' : List Char}

/-- With the flag, the texts are the same if the values are read as the same text. -/
theorem withBlocking_text_inj (h : DifferInValue u u' name value value') (b : Bool) :
    (Target.withBlocking u b).text = (Target.withBlocking u' b).text ↔
      Query.decode value = Query.decode value' := by
  obtain ⟨before, part, part', after, hparts, hparts', hpart, hpart'⟩ := h.parts
  have hkept (v : String) (ps : List QueryPair) :
      ((Query.decode name, v) :: ps).filter (·.1 ≠ Target.blockingName) =
        (Query.decode name, v) :: ps.filter (·.1 ≠ Target.blockingName) :=
    List.filter_cons_of_pos (decide_eq_true h.name_ne)
  rw [Target.withBlocking, Target.withBlocking, text_withQueryPairs_inj h.others,
    queryPairs_of_parts hparts hpart, queryPairs_of_parts hparts' hpart',
    List.append_cancel_right_eq, List.filter_append, List.filter_append,
    List.append_cancel_left_eq, hkept, hkept, List.cons.injEq, Prod.mk.injEq]
  simp only [true_and, and_true]

/-- Without the flag, the texts are the same only if the values are written in the same way. -/
theorem value_eq_of_text_eq (h : DifferInValue u u' name value value') (htext : u.text = u'.text) :
    value = value' := by
  obtain ⟨before, part, part', after, hparts, hparts', hpart, hpart'⟩ := h.parts
  obtain ⟨q, hq, hsplit⟩ := Option.map_eq_some_iff.1 hparts
  obtain ⟨q', hq', hsplit'⟩ := Option.map_eq_some_iff.1 hparts'
  have hquery : q = q' := query_eq_of_text_eq h.others hq hq' htext
  rw [← hquery, hsplit, List.append_cancel_left_eq, List.cons.injEq] at hsplit'
  have hhalves : (name, value) = (name, value') := by
    rw [← hpart.2, hsplit'.1, hpart'.2]
  exact congrArg Prod.snd hhalves

end DifferInValue

end Url

namespace ReplayOptions

open Url

/-- Two URLs that differ in the value of one parameter. Where the server is asked to wait, their
requests go to different URLs if and only if the values are read as different texts. Where it is
not asked, values of different bytes are always told apart, and where their bytes are text, so they
are in both modes. -/
theorem told_apart_iff (o : ReplayOptions) {u u' : Url} {name value value' : List Char}
    (h : DifferInValue u u' name value value') :
    (o.mode = .blocking →
        ({ o with url := u }.dispatchUrl.text ≠ { o with url := u' }.dispatchUrl.text ↔
          Query.decode value ≠ Query.decode value')) ∧
      (Query.octets value ≠ Query.octets value' →
        (o.mode = .fireAndForget →
          { o with url := u }.dispatchUrl.text ≠ { o with url := u' }.dispatchUrl.text) ∧
        ∀ text text', Query.octets value = Utf8.encode text →
          Query.octets value' = Utf8.encode text' →
            { o with url := u }.dispatchUrl.text ≠ { o with url := u' }.dispatchUrl.text) := by
  have hblocking (hmode : o.mode = .blocking) :
      { o with url := u }.dispatchUrl.text = { o with url := u' }.dispatchUrl.text ↔
        Query.decode value = Query.decode value' := by
    simp only [dispatchUrl, hmode]
    exact h.withBlocking_text_inj true
  have hforgotten (hmode : o.mode = .fireAndForget)
      (heq : { o with url := u }.dispatchUrl.text = { o with url := u' }.dispatchUrl.text) :
      value = value' := by
    simp only [dispatchUrl, hmode] at heq
    exact h.value_eq_of_text_eq heq
  refine ⟨fun hmode => not_congr (hblocking hmode), fun hne => ⟨?_, ?_⟩⟩
  · intro hmode heq
    exact hne (congrArg Query.octets (hforgotten hmode heq))
  · intro text text' htext htext' heq
    cases hmode : o.mode with
    | fireAndForget => exact hne (congrArg Query.octets (hforgotten hmode heq))
    | blocking =>
      have hread := (hblocking hmode).1 heq
      rw [Query.decode_eq, Query.decode_eq, htext, htext', Utf8.decodeLossy_encode,
        Utf8.decodeLossy_encode, String.ofList_inj] at hread
      exact hne (by rw [htext, htext', hread])

/-- The URLs `http://h/x?k=…` differ in the value. -/
theorem differInValue_sampleUrl {value value' : List Char} (h : '&' ∉ value) (h' : '&' ∉ value') :
    DifferInValue (Target.sampleUrl (String.ofList ('k' :: '=' :: value)) none)
      (Target.sampleUrl (String.ofList ('k' :: '=' :: value')) none) ['k'] value value' := by
  have hparts {v : List Char} (hv : '&' ∉ v) :
      (Target.sampleUrl (String.ofList ('k' :: '=' :: v)) none).queryParts? =
        some ([] ++ ('k' :: '=' :: v) :: []) := by
    have hpart : '&' ∉ 'k' :: '=' :: v := by simp [hv]
    have hsplit := Text.splitOn_intercalate (List.forall_mem_singleton.2 hpart)
      (List.cons_ne_nil _ [])
    rw [List.intercalate_singleton] at hsplit
    rw [queryParts?, Target.sampleUrl, Option.map_some, String.toList_ofList, hsplit]
    rfl
  have hparameter (v : List Char) : Query.IsParameter ('k' :: '=' :: v) ['k'] v :=
    ⟨List.cons_ne_nil _ _, @Query.halves_append ['k'] (by decide) v⟩
  refine ⟨rfl, ⟨[], _, _, [], hparts h, hparts h', hparameter value, hparameter value'⟩, ?_⟩
  have hname : Query.decode ['k'] = "k" := Query.decode_encode "k"
  rw [hname]
  decide

theorem told_apart_iff_sample :
    DifferInValue (Target.sampleUrl "k=%C3%A9" none) (Target.sampleUrl "k=e" none) ['k']
        ['%', 'C', '3', '%', 'A', '9'] ['e'] ∧
      { ofUrl (Target.sampleUrl "k=%C3%A9" none) with mode := .blocking }.dispatchUrl.text ≠
        { ofUrl (Target.sampleUrl "k=e" none) with mode := .blocking }.dispatchUrl.text := by
  have hdiffer : DifferInValue (Target.sampleUrl "k=%C3%A9" none) (Target.sampleUrl "k=e" none)
      ['k'] ['%', 'C', '3', '%', 'A', '9'] ['e'] :=
    differInValue_sampleUrl (by decide) (by decide)
  have hfirst : Query.octets ['%', 'C', '3', '%', 'A', '9'] = Utf8.encode ['é'] := by decide +kernel
  have hsecond : Query.octets ['e'] = Utf8.encode ['e'] := by decide +kernel
  have hne : Query.octets ['%', 'C', '3', '%', 'A', '9'] ≠ Query.octets ['e'] := by
    rw [hfirst, hsecond]
    decide
  exact ⟨hdiffer, ((told_apart_iff { ofUrl (Target.sampleUrl "" none) with mode := .blocking }
    hdiffer).2 hne).2 _ _ hfirst hsecond⟩

/-- Two values of bytes that are no text: asked to wait, the server gets the same replacement
character for both, although the URLs that were given differ in nothing but these values. -/
theorem values_blurred :
    Target.ofText "http://h/x?k=%FF" = .ok (Target.sampleUrl "k=%FF" none) ∧
      Target.ofText "http://h/x?k=%FE" = .ok (Target.sampleUrl "k=%FE" none) ∧
      DifferInValue (Target.sampleUrl "k=%FF" none) (Target.sampleUrl "k=%FE" none) ['k']
        ['%', 'F', 'F'] ['%', 'F', 'E'] ∧
      Query.octets ['%', 'F', 'F'] = [0xFF] ∧ Query.octets ['%', 'F', 'E'] = [0xFE] ∧
      (ofUrl (Target.sampleUrl "k=%FF" none)).dispatchUrl.text = "http://h/x?k=%FF" ∧
      (ofUrl (Target.sampleUrl "k=%FE" none)).dispatchUrl.text = "http://h/x?k=%FE" ∧
      { ofUrl (Target.sampleUrl "k=%FF" none) with mode := .blocking }.dispatchUrl.text =
        "http://h/x?k=%EF%BF%BD&blocking=true" ∧
      { ofUrl (Target.sampleUrl "k=%FE" none) with mode := .blocking }.dispatchUrl.text =
        "http://h/x?k=%EF%BF%BD&blocking=true" := by
  refine ⟨?_, ?_, ?_, ?_, ?_, ?_, ?_, ?_, ?_⟩
  · decide +kernel
  · decide +kernel
  · exact differInValue_sampleUrl (by decide) (by decide)
  · decide +kernel
  · decide +kernel
  · decide +kernel
  · decide +kernel
  · decide +kernel
  · decide +kernel

end ReplayOptions

end LoadReplay
