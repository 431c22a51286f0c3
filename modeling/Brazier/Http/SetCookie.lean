import Brazier.Http.Cookie
import Brazier.Http.Message
import Mathlib.Data.Bool.AllAny

/-!
# Setting cookies

`Cookie::set` of `src/Cookie.cpp` writes names and values into `Set-Cookie` fields as they are. A
user agent takes the text up to the first semicolon for the pair, and what follows for attributes.
`set_carries_iff` says for which maps it finds the cookies that were meant: a semicolon in a value
begins an attribute, and a blank in front of a value is lost when the cookie comes back.
-/

namespace Brazier

namespace Cookie

/-- The value of a `Set-Cookie` field. -/
def setCookieValue (name value : Text) : Text :=
  name ++ ("=" : Text) ++ value ++ ("; Path=/; HttpOnly; Secure; SameSite=None" : Text)

/-- `set`. -/
def set (res : Response) (cookies : TextMap) : Response :=
  cookies.toList.foldl
    (fun res cookie => res.insert "Set-Cookie" (setCookieValue cookie.1 cookie.2)) res

/-! ## What a user agent reads -/

/-- The pair of a `Set-Cookie` field, as it is written. -/
def pairText (field : Text) : Text := field.takeWhile (fun c => c ≠ ';')

/-- The attributes behind it. -/
def attributes (field : Text) : List Text :=
  (getlines ';' ((field.dropWhile (fun c => c ≠ ';')).drop 1)).map eraseBlanks

/-- A `Set-Cookie` field. -/
def readSetCookie (field : Text) : Option ((Text × Text) × List Text) :=
  (cutAt '=' (pairText field)).map fun pair => (pair, attributes field)

/-- The attributes that `set` means. -/
def ownAttributes : List Text := ["Path=/", "HttpOnly", "Secure", "SameSite=None"]

/-- The fields that `set` adds to a response. -/
def added (res : Response) (cookies : TextMap) : List Text :=
  ((set res cookies).values "Set-Cookie").drop (res.values "Set-Cookie").length

/-- The fields that are added carry the cookies of the map and no other attributes, and the map is
read from the pairs when they come back. -/
structure Carries (res : Response) (cookies : TextMap) : Prop where
  fields : (added res cookies).map readSetCookie =
    cookies.toList.map fun cookie => some (cookie, ownAttributes)
  recovered : parseCookies (joinWith "; " ((added res cookies).map pairText)) = cookies

/-! ## The fields -/

/-- One field is added for each cookie. -/
theorem added_eq (res : Response) (cookies : TextMap) :
    added res cookies =
      cookies.toList.map fun cookie => setCookieValue cookie.1 cookie.2 := by
  have hvalues : ∀ (pairs : List (Text × Text)) (res : Response),
      (pairs.foldl (fun res cookie => res.insert "Set-Cookie" (setCookieValue cookie.1 cookie.2))
        res).values "Set-Cookie" =
      res.values "Set-Cookie" ++ pairs.map fun cookie => setCookieValue cookie.1 cookie.2 := by
    intro pairs
    induction pairs with
    | nil => simp
    | cons pair rest ih =>
        intro res
        rw [List.foldl_cons, ih, Response.values_insert, List.append_assoc]
        rfl
  rw [added, set, hvalues, List.drop_left]

theorem setCookieValue_eq (name value : Text) :
    setCookieValue name value =
      (name ++ '=' :: value) ++ ';' :: (" Path=/; HttpOnly; Secure; SameSite=None" : Text) := by
  simp [setCookieValue]

/-- A pair without a semicolon is found again, and so are the attributes. -/
theorem pairText_append {pair : Text} (hpair : ';' ∉ pair) (rest : Text) :
    pairText (pair ++ ';' :: rest) = pair ∧
      attributes (pair ++ ';' :: rest) = (getlines ';' rest).map eraseBlanks := by
  have hother : ∀ c ∈ pair, (decide (c ≠ ';')) = true := by
    intro c hc
    refine decide_eq_true ?_
    rintro rfl
    exact hpair hc
  constructor
  · rw [pairText, List.takeWhile_append_of_pos hother]
    simp
  · rw [attributes, List.dropWhile_append_of_pos hother]
    simp

/-- A cookie is read as it was meant when neither its name nor its value has a semicolon. -/
theorem readSetCookie_iff {name : Text} (hname : '=' ∉ name) (value : Text) :
    readSetCookie (setCookieValue name value) = some ((name, value), ownAttributes) ↔
      ';' ∉ name ∧ ';' ∉ value := by
  rw [readSetCookie]
  constructor
  · intro h
    obtain ⟨pair, hcut, heq⟩ := Option.map_eq_some_iff.mp h
    obtain rfl : pair = (name, value) := congrArg Prod.fst heq
    have hpair : pairText (setCookieValue name value) = name ++ '=' :: value := eq_of_cutAt hcut
    have hnone : ';' ∉ pairText (setCookieValue name value) := by
      intro hmem
      simpa using List.mem_takeWhile_imp hmem
    rw [hpair] at hnone
    simpa using hnone
  · rintro ⟨hfirst, hsecond⟩
    have hnone : ';' ∉ name ++ '=' :: value := by simp [hfirst, hsecond]
    have hown : (getlines ';' (" Path=/; HttpOnly; Secure; SameSite=None" : Text)).map eraseBlanks =
        ownAttributes := by decide
    obtain ⟨hpair, hrest⟩ := pairText_append hnone
      (" Path=/; HttpOnly; Secure; SameSite=None" : Text)
    rw [setCookieValue_eq, hpair, hrest, hown, cutAt_append hname]
    rfl

/-! ## The map that comes back -/

/-- The cookies with the blanks in front of their values erased. -/
theorem getElem?_stripped (cookies : TextMap) (name : Text) :
    (insertAll (cookies.toList.map fun cookie => (cookie.1, eraseBlanks cookie.2)) ∅)[name]? =
      cookies[name]?.map eraseBlanks := by
  refine Option.ext fun value => ?_
  rw [Option.map_eq_some_iff]
  constructor
  · intro h
    rcases of_getElem?_insertAll h with hmem | hempty
    · obtain ⟨⟨key, v⟩, hv, heq⟩ := List.mem_map.mp hmem
      cases heq
      exact ⟨v, mem_toList_iff.mp hv, rfl⟩
    · simp at hempty
  · rintro ⟨v, hv, rfl⟩
    refine getElem?_insertAll (List.mem_map.mpr ⟨(name, v), mem_toList_iff.mpr hv, rfl⟩) ?_
    intro other hother
    obtain ⟨⟨key, w⟩, hw, heq⟩ := List.mem_map.mp hother
    cases heq
    rw [mem_toList_iff, hv] at hw
    cases hw
    rfl

theorem unindented_of_no_blank {name : Text} (h : ∀ c ∈ name, isBlank c = false) :
    Unindented name :=
  fun c hc => h c (List.mem_of_mem_head? hc)

/-- A user agent sends the pairs back, and their values are read without the blanks in front of
them. -/
theorem parseCookies_returned {pairs : List (Text × Text)}
    (hpairs : ∀ pair ∈ pairs, '=' ∉ pair.1 ∧ ';' ∉ pair.1 ∧ ';' ∉ pair.2 ∧ Unindented pair.1) :
    parseCookies (joinWith "; " (pairs.map fun pair => pair.1 ++ '=' :: pair.2)) =
      insertAll (pairs.map fun pair => (pair.1, eraseBlanks pair.2)) ∅ := by
  have hread : ∀ pair ∈ pairs, parsePair (pair.1 ++ '=' :: pair.2) =
      some (pair.1, eraseBlanks pair.2) := by
    intro pair hpair
    obtain ⟨hequal, _, _, hstart⟩ := hpairs pair hpair
    rw [parsePair_append hequal, eraseBlanks_eq_self_iff.mpr hstart]
  have hreadBlank : ∀ pair ∈ pairs, parsePair ([' '] ++ (pair.1 ++ '=' :: pair.2)) =
      some (pair.1, eraseBlanks pair.2) := by
    intro pair hpair
    obtain ⟨hequal, _, _, hstart⟩ := hpairs pair hpair
    rw [← List.append_assoc, parsePair_append (by simp [hequal]),
      eraseBlanks_append (by simp [isBlank]), eraseBlanks_eq_self_iff.mpr hstart]
  have hnone : ∀ pair ∈ pairs, ';' ∉ pair.1 ++ '=' :: pair.2 := by
    intro pair hpair
    obtain ⟨_, hname, hvalue, _⟩ := hpairs pair hpair
    simp [hname, hvalue]
  cases pairs with
  | nil => rfl
  | cons first rest =>
      rw [List.forall_mem_cons] at hread hreadBlank hnone
      have hjoin : joinWith ("; " : Text)
          ((first :: rest).map fun pair => pair.1 ++ '=' :: pair.2) = _ :=
        joinWith_cons_sep ';' [' '] _ _
      rw [hjoin, parseCookies_joinWith]
      · rw [List.filterMap_cons_some hread.1, List.map_map, List.filterMap_map, List.map_cons]
        congr 2
        rw [← List.filterMap_eq_map]
        exact List.filterMap_congr hreadBlank.2
      · rw [List.map_map, List.forall_mem_cons]
        refine ⟨hnone.1, fun part hpart => ?_⟩
        obtain ⟨pair, hpair, rfl⟩ := List.mem_map.mp hpart
        simpa using hnone.2 pair hpair

/-- The pairs of the fields are the cookies as they are written. -/
theorem pairs_eq {cookies : List (Text × Text)}
    (hread : ∀ cookie ∈ cookies, ';' ∉ cookie.1 ∧ ';' ∉ cookie.2) :
    (cookies.map fun cookie => setCookieValue cookie.1 cookie.2).map pairText =
      cookies.map fun cookie => cookie.1 ++ '=' :: cookie.2 := by
  rw [List.map_map]
  refine List.map_congr_left fun cookie hcookie => ?_
  obtain ⟨hfirst, hsecond⟩ := hread cookie hcookie
  show pairText (setCookieValue cookie.1 cookie.2) = _
  rw [setCookieValue_eq]
  exact (pairText_append (by simp [hfirst, hsecond]) _).1

/-- What comes back of cookies without semicolons. -/
theorem parseCookies_added {res : Response} {cookies : TextMap}
    (hentries : ∀ cookie ∈ cookies.toList, '=' ∉ cookie.1 ∧ Unindented cookie.1)
    (hread : ∀ cookie ∈ cookies.toList, ';' ∉ cookie.1 ∧ ';' ∉ cookie.2) :
    parseCookies (joinWith "; " ((added res cookies).map pairText)) =
      insertAll (cookies.toList.map fun cookie => (cookie.1, eraseBlanks cookie.2)) ∅ := by
  rw [added_eq, pairs_eq hread]
  refine parseCookies_returned fun cookie hcookie => ?_
  obtain ⟨hequal, hstart⟩ := hentries cookie hcookie
  obtain ⟨hfirst, hsecond⟩ := hread cookie hcookie
  exact ⟨hequal, hfirst, hsecond, hstart⟩

/-- The cookies of a map are carried exactly when no name and no value has a semicolon and no value
begins with a blank. -/
theorem set_carries_iff (res : Response) (cookies : TextMap)
    (hnames : ∀ name value : Text, cookies[name]? = some value →
      name ≠ [] ∧ '=' ∉ name ∧ ∀ c ∈ name, isBlank c = false) :
    Carries res cookies ↔
      ∀ name value : Text, cookies[name]? = some value →
        ';' ∉ name ∧ ';' ∉ value ∧ Unindented value := by
  have hentries : ∀ cookie ∈ cookies.toList, '=' ∉ cookie.1 ∧ Unindented cookie.1 := by
    intro ⟨name, value⟩ hcookie
    obtain ⟨_, hequal, hblank⟩ := hnames name value (mem_toList_iff.mp hcookie)
    exact ⟨hequal, unindented_of_no_blank hblank⟩
  constructor
  · intro ⟨hfields, hrecovered⟩ name value hvalue
    -- every field is read as it was meant, so nothing has a semicolon
    have hread : ∀ cookie ∈ cookies.toList, ';' ∉ cookie.1 ∧ ';' ∉ cookie.2 := by
      rw [added_eq, List.map_map] at hfields
      intro cookie hcookie
      rw [← readSetCookie_iff (hentries cookie hcookie).1]
      exact List.map_inj_left.mp hfields cookie hcookie
    obtain ⟨hfirst, hsecond⟩ := hread (name, value) (mem_toList_iff.mpr hvalue)
    refine ⟨hfirst, hsecond, ?_⟩
    rw [parseCookies_added hentries hread] at hrecovered
    have hstripped := getElem?_stripped cookies name
    rw [hrecovered, hvalue, Option.map_some] at hstripped
    exact eraseBlanks_eq_self_iff.mp (Option.some.inj hstripped).symm
  · intro h
    have hread : ∀ cookie ∈ cookies.toList, ';' ∉ cookie.1 ∧ ';' ∉ cookie.2 := by
      intro ⟨name, value⟩ hcookie
      obtain ⟨hfirst, hsecond, _⟩ := h name value (mem_toList_iff.mp hcookie)
      exact ⟨hfirst, hsecond⟩
    refine ⟨?_, ?_⟩
    · rw [added_eq, List.map_map]
      refine List.map_congr_left fun cookie hcookie => ?_
      exact (readSetCookie_iff (hentries cookie hcookie).1 cookie.2).mpr (hread cookie hcookie)
    · rw [parseCookies_added hentries hread]
      refine Std.ExtTreeMap.ext_getElem? fun name => ?_
      rw [getElem?_stripped]
      cases hvalue : cookies[name]? with
      | none => rfl
      | some value =>
          rw [Option.map_some, eraseBlanks_eq_self_iff.mpr (h name value hvalue).2.2]

/-- A map with one cookie. -/
def oneCookie (name value : Text) : TextMap := insertAll [(name, value)] ∅

theorem getElem?_oneCookie {name value key found : Text}
    (h : (oneCookie name value)[key]? = some found) : key = name ∧ found = value := by
  rcases of_getElem?_insertAll h with hmem | hempty
  · cases List.mem_singleton.mp hmem
    exact ⟨rfl, rfl⟩
  · simp at hempty

theorem set_carries_theme : Carries Response.empty (oneCookie "theme" "dark") := by
  refine (set_carries_iff Response.empty (oneCookie "theme" "dark") ?_).mpr ?_
  · intro name value h
    obtain ⟨rfl, rfl⟩ := getElem?_oneCookie h
    exact ⟨by decide, by decide, List.all_iff_forall_prop.mp (by decide)⟩
  · intro name value h
    obtain ⟨rfl, rfl⟩ := getElem?_oneCookie h
    decide

/-- A value with a semicolon adds an attribute to its cookie. -/
theorem value_adds_domain :
    readSetCookie (setCookieValue "theme" "dark; Domain=example.com") =
      some ((("theme" : Text), ("dark" : Text)), ("Domain=example.com" : Text) :: ownAttributes) ∧
    ¬ Carries Response.empty (oneCookie "theme" "dark; Domain=example.com") := by
  have hread : readSetCookie (setCookieValue "theme" "dark; Domain=example.com") =
      some ((("theme" : Text), ("dark" : Text)),
        ("Domain=example.com" : Text) :: ownAttributes) := by
    decide +kernel
  refine ⟨hread, fun h => ?_⟩
  have hentries : (oneCookie "theme" "dark; Domain=example.com").toList =
      ([("theme", "dark; Domain=example.com")] : List (Text × Text)) := by decide +kernel
  have hfields := h.fields
  rw [added_eq, hentries] at hfields
  have hfield := (List.cons.inj hfields).1
  dsimp only at hfield
  rw [hread] at hfield
  cases hfield

end Cookie

end Brazier
