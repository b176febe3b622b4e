import LoadReplay.Proofs.Except
import LoadReplay.Proofs.Url.Origin

/-!
# The target of an action

The target of an action is read from a text that the namespace and the name of the action are
written into as they are. Whatever they are, the target leads to the server of the address, if that
is a URL (`Target.ofAction_eq`). It leads to the action, with the parameter in the query, exactly if
the namespace and the name can stand in a path as they are (`Target.invokes_iff`).
-/

namespace LoadReplay

namespace Url

variable {u : Url} {«namespace» action : String}

/-- The URL leads to an action, which the server is asked not to wait for. -/
structure Invokes (u : Url) («namespace» action : String) : Prop where
  path : bytesOf u.pathText.toList =
    Utf8.encode ("/api/v1/namespaces/" ++ «namespace» ++ "/actions/" ++ action).toList
  query : u.queryPairs = [("blocking", "false")]
  fragment : u.fragment = none

/-- The path of an action, but for the slash that it begins with. -/
def actionPath («namespace» action : String) : List Char :=
  ("api/v1/namespaces/" ++ «namespace» ++ "/actions/" ++ action).toList

theorem actionPath_eq («namespace» action : String) : actionPath «namespace» action =
    "api/v1/namespaces".toList ++
      '/' :: («namespace».toList ++ '/' :: ("actions".toList ++ '/' :: action.toList)) := by
  have hfront : "api/v1/namespaces/".toList = "api/v1/namespaces".toList ++ ['/'] := by decide
  have hactions : "/actions/".toList = '/' :: ("actions".toList ++ ['/']) := by decide
  change ("api/v1/namespaces/" ++ «namespace» ++ "/actions/" ++ action).toList = _
  rw [String.toList_append, String.toList_append, String.toList_append, hfront, hactions]
  simp only [List.append_assoc, List.cons_append, List.nil_append]

theorem slash_actionPath («namespace» action : String) :
    ("/api/v1/namespaces/" ++ «namespace» ++ "/actions/" ++ action).toList =
      '/' :: actionPath «namespace» action := by
  have hslash : "/api/v1/namespaces/" = "/" ++ "api/v1/namespaces/" := by decide
  rw [hslash, String.append_assoc, String.append_assoc, String.append_assoc, String.toList_append,
    ← String.append_assoc, ← String.append_assoc]
  rfl

/-- A text without percent signs is plain if it has no marks and no dots. -/
theorem isPlain_of_all {cs : List Char} (hpercent : '%' ∉ cs)
    (hmark : cs.all (fun c => !isEnd c && c != '\\' && isKept c) = true)
    (hdots : ['.'] ∉ Text.splitOn '/' cs ∧ ['.', '.'] ∉ Text.splitOn '/' cs) : IsPlain cs := by
  refine ⟨fun c hc => not_mark_iff.2 ?_, isUnescaped_of_not_mem hpercent, hdots⟩
  simpa [and_assoc] using List.all_eq_true.1 hmark c hc

theorem isPlain_pieces {a b c d : List Char} :
    IsPlain (a ++ '/' :: (b ++ '/' :: (c ++ '/' :: d))) ↔
      IsPlain a ∧ IsPlain b ∧ IsPlain c ∧ IsPlain d := by
  rw [isPlain_append_slash, isPlain_append_slash, isPlain_append_slash]

theorem isPlain_actionPath : IsPlain (actionPath «namespace» action) ↔
    IsPlain «namespace».toList ∧ IsPlain action.toList := by
  have hfront : IsPlain "api/v1/namespaces".toList :=
    isPlain_of_all (by decide) (by decide) (by decide)
  have hactions : IsPlain "actions".toList := isPlain_of_all (by decide) (by decide) (by decide)
  rw [actionPath_eq, isPlain_pieces]
  exact ⟨fun ⟨_, h, _, h'⟩ => ⟨h, h'⟩, fun ⟨h, h'⟩ => ⟨hfront, h, hactions, h'⟩⟩

/-- What is read behind the address of the server. -/
def actionTail («namespace» action : String) : List Char :=
  (actionPath «namespace» action).filter isKept ++ '?' :: "blocking=false".toList

/-- A plain path is followed by the query with the parameter and nothing else. -/
theorem below_actionTail (h : IsPlain (actionPath «namespace» action)) :
    u.below (actionTail «namespace» action) =
      { u with
        path := (Text.splitOn '/' (actionPath «namespace» action)).map segmentOf
        query := some "blocking=false"
        fragment := none } := by
  have hread : queryAndFragment ('?' :: "blocking=false".toList) =
      (some "blocking=false", none) := by decide +kernel
  rw [actionTail, h.filter_eq, below, h.splitPath_eq rfl]
  dsimp only
  rw [hread]

theorem pairs_blocking : Query.pairs "blocking=false".toList = [("blocking", "false")] := by
  have hwrite : Query.write [("blocking", "false")] = "blocking=false".toList := by decide +kernel
  rw [← hwrite]
  exact Query.pairs_write _

/-- Below the address of a server the text of a plain path leads to the action, and no other. -/
theorem invokes_below_iff : (u.below (actionTail «namespace» action)).Invokes «namespace» action ↔
    IsPlain «namespace».toList ∧ IsPlain action.toList := by
  have hpath := bytesOf_pathText_iff (below_path u (actionTail «namespace» action))
  rw [← slash_actionPath, isPlain_actionPath] at hpath
  constructor
  · intro h
    exact hpath.1 h.path
  · intro h
    have hbelow := below_actionTail (u := u) (isPlain_actionPath.2 h)
    refine ⟨hpath.2 h, ?_, ?_⟩
    · rw [hbelow]
      exact pairs_blocking
    · rw [hbelow]

end Url

namespace Target

variable {«namespace» action : String}

/-- A text that is read as the URL of a web server is a target. -/
theorem ofText_eq {text : String} {read : Except UrlFault Url}
    (h : Reference.ofText text = read.map .web) : ofText text = read.mapError (.badUrl text) := by
  rw [ofText, h]
  cases read <;> rfl

/-- An address is read as such. -/
theorem ofText_origin (o : Origin) :
    ofText o.text = (Url.ofAuthority o.scheme o.authority).mapError (.badUrl o.text) := by
  have hread := o.ofText_append "" (fun _ hc => by cases hc)
  rw [String.append_empty] at hread
  refine ofText_eq (hread.trans ?_)
  rw [String.toList_empty, List.filter_nil, List.append_nil]

/-- The text that the target of an action is read from. -/
def actionText (host «namespace» action : String) : String :=
  host ++ "/api/v1/namespaces/" ++ «namespace» ++ "/actions/" ++ action ++ "?blocking=false"

/-- The target of an action is read below the address of the server. -/
theorem ofAction_eq (o : Origin) (slashes : ℕ) («namespace» : String) (h : action ≠ "") :
    ofAction (o.textWith slashes) «namespace» action =
      ((Url.ofAuthority o.scheme o.authority).map
        (·.below (Url.actionTail «namespace» action))).mapError
          (.badUrl (actionText o.text «namespace» action)) := by
  have htext : actionText o.text «namespace» action = o.text ++
      ("/api/v1/namespaces/" ++ «namespace» ++ "/actions/" ++ action ++ "?blocking=false") := by
    simp only [actionText, String.append_assoc]
  have htail : ("/api/v1/namespaces/" ++ «namespace» ++ "/actions/" ++ action ++
      "?blocking=false").toList.filter Url.isKept = '/' :: Url.actionTail «namespace» action := by
    rw [String.toList_append, Url.slash_actionPath, List.filter_append]
    rfl
  have hread := o.ofText_append
    ("/api/v1/namespaces/" ++ «namespace» ++ "/actions/" ++ action ++ "?blocking=false")
    fun c hc => by
      rw [String.toList_append, List.getLast?_append] at hc
      cases hc
      decide
  rw [htail, Url.ofAuthority_append o.isAuthority, ← htext] at hread
  have haction : ofAction (o.textWith slashes) «namespace» action =
      ofText (actionText o.text «namespace» action) := by
    rw [ofAction, if_neg h, o.withoutSlashes_textWith, actionText]
  exact haction.trans (ofText_eq hread)

/-- If the address of the server is a URL, so is the target. -/
theorem ofAction_eq_ok {o : Origin} {u : Url} (hu : ofText o.text = .ok u) (slashes : ℕ)
    («namespace» : String) (h : action ≠ "") :
    ofAction (o.textWith slashes) «namespace» action =
      .ok (u.below (Url.actionTail «namespace» action)) := by
  rw [ofText_origin, Except.mapError_eq_ok_iff] at hu
  rw [ofAction_eq o slashes «namespace» h, hu]
  rfl

/-- The target of an action is a URL exactly if the address of the server is one, and it leads to
that server. It leads to the action exactly if the namespace and the name are plain. -/
theorem invokes_iff (o : Origin) (slashes : ℕ) («namespace» : String) (h : action ≠ "") :
    (∃ fault, ofText o.text = .error (.badUrl o.text fault) ∧
      ofAction (o.textWith slashes) «namespace» action =
        .error (.badUrl (actionText o.text «namespace» action) fault)) ∨
    ∃ u v, ofText o.text = .ok u ∧ ofAction (o.textWith slashes) «namespace» action = .ok v ∧
      v = { u with path := v.path, query := v.query, fragment := v.fragment } ∧
      (v.Invokes «namespace» action ↔
        Url.IsPlain «namespace».toList ∧ Url.IsPlain action.toList) := by
  rw [ofText_origin, ofAction_eq o slashes «namespace» h]
  cases Url.ofAuthority o.scheme o.authority with
  | error fault => exact .inl ⟨fault, rfl, rfl⟩
  | ok u =>
    exact .inr ⟨u, u.below (Url.actionTail «namespace» action), rfl, rfl, Url.below_eq u _,
      Url.invokes_below_iff⟩

/-- The address of a server on this host. -/
def localOrigin : Origin where
  scheme := .https
  name := "https".toList
  authority := "localhost:31001".toList
  name_eq := by decide
  authority_ne := by decide
  isAuthority := by decide

/-- The address as a URL. -/
def localUrl : Url where
  scheme := .https
  username := ""
  password := ""
  host := .domain "localhost"
  port := some 31001
  path := [""]
  query := none
  fragment := none

theorem ofText_localOrigin : ofText localOrigin.text = .ok localUrl := by
  have hread : Url.ofAuthority .https "localhost:31001".toList = .ok localUrl := by decide +kernel
  rw [ofText_origin, Except.mapError_eq_ok_iff]
  exact hread

theorem invokes_iff_sample : "hello" ≠ "" ∧ localOrigin.textWith 1 = "https://localhost:31001/" ∧
    ∃ v, ofAction "https://localhost:31001/" "_" "hello" = .ok v ∧ v.Invokes "_" "hello" := by
  have htext : localOrigin.textWith 1 = "https://localhost:31001/" := by decide
  have hplain : Url.IsPlain "_".toList ∧ Url.IsPlain "hello".toList :=
    ⟨Url.isPlain_of_all (by decide) (by decide) (by decide),
      Url.isPlain_of_all (by decide) (by decide) (by decide)⟩
  refine ⟨by decide, htext, ?_⟩
  rw [← htext]
  rcases invokes_iff localOrigin 1 "_" (by decide : "hello" ≠ "") with
    ⟨fault, hfault, -⟩ | ⟨_, v, -, hv, -, hinvokes⟩
  · rw [ofText_localOrigin] at hfault
    cases hfault
  · exact ⟨v, hv, hinvokes.2 hplain⟩

/-- A number sign in the name of an action ends the path and makes a fragment of the parameter. -/
theorem parameter_in_fragment : ∃ v, ofAction "https://localhost:31001" "_" "a#b" = .ok v ∧
    v.pathText = "/api/v1/namespaces/_/actions/a" ∧ v.queryPairs = [] ∧
      v.fragment = some "b?blocking=false" ∧ ¬ v.Invokes "_" "a#b" := by
  have htext : localOrigin.textWith 0 = "https://localhost:31001" := by decide
  have htail : Url.actionTail "_" "a#b" =
      "api/v1/namespaces/_/actions/a".toList ++ '#' :: "b?blocking=false".toList := by decide
  have hplain : Url.IsPlain "api/v1/namespaces/_/actions/a".toList :=
    Url.isPlain_of_all (by decide) (by decide) (by decide)
  have hread := ofAction_eq_ok ofText_localOrigin 0 "_" (by decide : "a#b" ≠ "")
  rw [htext] at hread
  have hbelow : localUrl.below (Url.actionTail "_" "a#b") =
      { localUrl with
        path := ["api", "v1", "namespaces", "_", "actions", "a"]
        query := none
        fragment := some "b?blocking=false" } := by
    have hsegments : (Text.splitOn '/' "api/v1/namespaces/_/actions/a".toList).map Url.segmentOf =
        ["api", "v1", "namespaces", "_", "actions", "a"] := by decide
    have hrest : Url.queryAndFragment ('#' :: "b?blocking=false".toList) =
        (none, some "b?blocking=false") := by decide
    rw [htail, Url.below, hplain.splitPath_eq rfl, hsegments]
    dsimp only
    rw [hrest]
  have hpath : "/" ++ "/".intercalate ["api", "v1", "namespaces", "_", "actions", "a"] =
      "/api/v1/namespaces/_/actions/a" := by decide
  rw [hbelow] at hread
  refine ⟨_, hread, hpath, rfl, rfl, fun h => ?_⟩
  cases h.fragment

end Target

end LoadReplay
