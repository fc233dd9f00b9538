import PcAssembly.Price.Http
import PcAssembly.Proofs.Number.Digits
import PcAssembly.Proofs.Url.Target

/-! # The address of a price history

    The address of a product's history is the endpoint without the slashes at
    its end and a path.  Endpoints are checked as URLs, which may have blanks
    around them, a query and a fragment, but the path is put behind the text.  So
    the address is a URL unless a blank comes to stand in the host or port, and
    it names the history of the product unless there is a query or a fragment
    (`seriesUrl_of_endpoint`). -/

namespace PcAssembly.PriceQuery

open Url

variable {names : HostNames}

/-- The path of a product's history. -/
def historyPath (productId : Int64) : List Char :=
  "/products/".toList ++ Number.intDigits productId.toInt ++ "/price-history".toList

/-- An endpoint without the slashes at its end. -/
def base (endpoint : String) : List Char := endpoint.toList.rdropWhile (· = '/')

/-- An integer is written in its digits. -/
theorem toList_toString (i : Int) : (toString i).toList = Number.intDigits i := by
  have hrepr (n : Nat) : (toString n).toList = Number.natDigits n := String.toList_ofList
  cases i with
  | ofNat n => exact hrepr n
  | negSucc n =>
      have htext : toString (Int.negSucc n) = "-" ++ toString (n + 1) := rfl
      rw [htext, String.toList_append, hrepr, Number.intDigits, if_pos (Int.negSucc_lt_zero n)]
      simp

/-- An address is the endpoint without slashes at its end, and the path behind
    it. -/
theorem toList_seriesUrl (endpoint : String) (productId : Int64) :
    (seriesUrl endpoint productId).toList = base endpoint ++ historyPath productId := by
  have hbase : (endpoint.toList.reverse.dropWhile (· = '/')).reverse = base endpoint := rfl
  have htext (s : String) : toString s = s := rfl
  unfold seriesUrl historyPath
  generalize productId.toInt = id
  dsimp only
  rw [hbase, htext, htext, htext, String.toList_append, String.toList_append,
    String.toList_append, String.toList_ofList, toList_toString]
  simp only [List.append_assoc]

/-- Every digit is plain. -/
theorem isPlain_of_isDigit {c : Char} (h : c.isDigit = true) : isPlain c = true := by
  have hall : ∀ n < 0x3A, 0x30 ≤ n → isPlain (Char.ofNat n) = true := by decide
  obtain ⟨hlow, hhigh⟩ := Char.isDigit_iff_toNat.mp h
  have hplain := hall c.toNat (Nat.lt_succ_of_le hhigh) hlow
  rwa [Char.ofNat_toNat] at hplain

/-- The path of a product is plain. -/
theorem isPlainPath_historyPath (productId : Int64) : IsPlainPath (historyPath productId) := by
  have hid : ∀ c ∈ Number.intDigits productId.toInt, isPlain c = true := by
    intro c hc
    by_cases hdigit : c.isDigit = true
    · exact isPlain_of_isDigit hdigit
    · by_cases hhyphen : c = '-'
      · rw [hhyphen]
        rfl
      · exact absurd hc (Number.not_mem_intDigits hhyphen (Bool.eq_false_iff.mpr hdigit) _)
  unfold historyPath
  revert hid
  generalize Number.intDigits productId.toInt = digits
  intro hid
  refine ⟨by simp, fun c hc => ?_⟩
  rw [List.mem_append, List.mem_append] at hc
  rcases hc with (hc | hc) | hc
  · have hall : "/products/".toList.all isPlain = true := rfl
    exact List.all_eq_true.mp hall c hc
  · exact hid c hc
  · have hall : "/price-history".toList.all isPlain = true := rfl
    exact List.all_eq_true.mp hall c hc

/-- An endpoint is its base and slashes. -/
theorem exists_slashes (endpoint : String) :
    ∃ slashes, endpoint.toList = base endpoint ++ slashes ∧ ∀ c ∈ slashes, c = '/' := by
  refine ⟨_, List.rdropWhile_append_rtakeWhile.symm, fun c hc => ?_⟩
  simpa using List.mem_rtakeWhile_imp hc

/-- The base does not end in a slash. -/
theorem getLast?_base (endpoint : String) : (base endpoint).getLast? ≠ some '/' := by
  intro hlast
  have hne : base endpoint ≠ [] := by
    intro hnil
    rw [hnil] at hlast
    cases hlast
  have hslash := List.rdropWhile_last_not (· = '/') endpoint.toList hne
  rw [List.getLast?_eq_some_getLast hne] at hlast
  exact hslash (decide_eq_true (Option.some.inj hlast))

/-- The address is a URL if the endpoint has no edge that would come to stand in
    its host or port. -/
theorem ofUrl?_seriesUrl_iff (hnames : names.RefusesBlanks) {endpoint : String}
    (h : ValueFault.ofUrl? names endpoint = none)
    (productId : Int64) :
    ValueFault.ofUrl? names (seriesUrl endpoint productId) = none ↔
      keptEdges endpoint.toList = [] ∨ goesOn endpoint.toList = true := by
  have ht := isPlainPath_historyPath productId
  rw [ofUrl?_eq_none_iff] at h ⊢
  rw [toList_seriesUrl]
  obtain ⟨slashes, hparts, hslashes⟩ := exists_slashes endpoint
  by_cases hne : slashes = []
  · rw [hne, List.append_nil] at hparts
    rw [← hparts]
    exact isWebUrl_append_iff hnames h ht
  · rw [hparts] at h
    refine iff_of_true (h.append_path hslashes hne ht) (.inl ?_)
    obtain ⟨front, c, rfl⟩ := (List.eq_nil_or_concat' slashes).resolve_left hne
    obtain rfl : c = '/' := hslashes c (by simp)
    rw [keptEdges, hparts, ← List.append_assoc, List.rtakeWhile_concat_neg _ _ _ (by decide)]
    rfl

/-! ### What the address names -/

/-- The part of an address before its query and its fragment. -/
def beforeQuery (address : String) : List Char :=
  address.toList.takeWhile fun c => c != '?' && c != '#'

/-- Before its query and its fragment the address ends with the path of the
    product's history, and one slash stands in front of it. -/
def NamesHistory (address : String) (productId : Int64) : Prop :=
  historyPath productId <:+ beforeQuery address ∧
    ¬ '/' :: historyPath productId <:+ beforeQuery address

instance (address : String) (productId : Int64) : Decidable (NamesHistory address productId) :=
  inferInstanceAs (Decidable (_ ∧ _))

/-- No query and no fragment begins in the text in front of the path. -/
def IsBare (endpoint : String) : Prop :=
  ∀ c ∈ base endpoint, (c != '?' && c != '#') = true

/-- The slashes that are cut off do not matter for that. -/
theorem isBare_iff {endpoint : String} :
    IsBare endpoint ↔ '?' ∉ endpoint.toList ∧ '#' ∉ endpoint.toList := by
  obtain ⟨slashes, hparts, hslashes⟩ := exists_slashes endpoint
  constructor
  · intro hbare
    have hnone (d : Char) (hd : (d != '?' && d != '#') = false) (hslash : d ≠ '/') :
        d ∉ endpoint.toList := by
      intro hmem
      rcases List.mem_append.mp (hparts ▸ hmem) with hmem | hmem
      · rw [hbare d hmem] at hd
        cases hd
      · exact hslash (hslashes d hmem)
    exact ⟨hnone '?' rfl (by decide), hnone '#' rfl (by decide)⟩
  · rintro ⟨hquery, hfragment⟩ c hc
    have hmem : c ∈ endpoint.toList := hparts ▸ List.mem_append_left slashes hc
    rw [Bool.and_eq_true, bne_iff_ne, bne_iff_ne]
    exact ⟨fun hmark => hquery (hmark ▸ hmem), fun hmark => hfragment (hmark ▸ hmem)⟩

/-- The address behind a bare endpoint names the product. -/
theorem IsBare.namesHistory {endpoint : String} (h : IsBare endpoint) (productId : Int64) :
    NamesHistory (seriesUrl endpoint productId) productId := by
  have ht := isPlainPath_historyPath productId
  have hall : ∀ c ∈ base endpoint ++ historyPath productId, (c != '?' && c != '#') = true := by
    refine List.forall_mem_append.mpr ⟨h, fun c hc => ?_⟩
    rw [Bool.and_eq_true, bne_iff_ne, bne_iff_ne]
    exact ⟨ht.ne_of_mem hc rfl, ht.ne_of_mem hc rfl⟩
  rw [NamesHistory, beforeQuery, toList_seriesUrl, List.takeWhile_eq_self_iff.mpr hall]
  refine ⟨List.suffix_append _ _, ?_⟩
  rintro ⟨front, hfront⟩
  have hbase : front ++ ['/'] = base endpoint :=
    List.append_cancel_right ((List.append_assoc ..).trans hfront)
  exact getLast?_base endpoint (hbase ▸ List.getLast?_concat)

/-- A query or a fragment of the endpoint takes the path in. -/
theorem beforeQuery_seriesUrl {endpoint : String} (h : ¬ IsBare endpoint) (productId : Int64) :
    beforeQuery (seriesUrl endpoint productId) = beforeQuery endpoint := by
  obtain ⟨slashes, hparts, -⟩ := exists_slashes endpoint
  have hstops (t : List Char) :
      (base endpoint ++ t).takeWhile (fun c => c != '?' && c != '#') =
        (base endpoint).takeWhile (fun c => c != '?' && c != '#') := by
    rw [List.takeWhile_append, if_neg]
    intro hlength
    exact h (List.takeWhile_eq_self_iff.mp ((List.takeWhile_prefix _).eq_of_length hlength))
  rw [beforeQuery, beforeQuery, toList_seriesUrl, hparts, hstops, hstops]

/-- The address of a history names it unless the endpoint has a query or a
    fragment, and in that case it does if the endpoint does. -/
theorem namesHistory_seriesUrl_iff (endpoint : String) (productId : Int64) :
    NamesHistory (seriesUrl endpoint productId) productId ↔
      ('?' ∉ endpoint.toList ∧ '#' ∉ endpoint.toList) ∨ NamesHistory endpoint productId := by
  rw [← isBare_iff]
  by_cases h : IsBare endpoint
  · exact iff_of_true (h.namesHistory productId) (.inl h)
  · rw [or_iff_right h, NamesHistory, beforeQuery_seriesUrl h]
    rfl

/-! ### What is asked for -/

/-- The query of a request. -/
def askedFor (query : PriceQuery) : List Char :=
  queryPair "from" query.start.toText ++ '&' :: queryPair "to" query.stop.toText ++
    '&' :: queryPair "bucket" query.bucket.word

/-- A pair is added behind those that are there. -/
theorem query_addPair {target : Url.Target} {name value : String} :
    (target.addPair name value).query = some (match target.query with
      | none => queryPair name value
      | some [] => queryPair name value
      | some (c :: query) => c :: query ++ '&' :: queryPair name value) := by
  rw [Target.addPair]
  dsimp only
  match target.query with
  | none => rfl
  | some [] => rfl
  | some (c :: query) => rfl

/-- The pairs of a request are the whole query of an address that has none. -/
theorem query_addPairs {target : Url.Target} (h : target.query = none) (query : PriceQuery) :
    (((target.addPair "from" query.start.toText).addPair "to" query.stop.toText).addPair
      "bucket" query.bucket.word).query = some query.askedFor := by
  have hcons (name value : String) : ∃ c rest, queryPair name value = c :: rest :=
    List.exists_cons_of_ne_nil (by simp [queryPair])
  obtain ⟨c, rest, hfrom⟩ := hcons "from" query.start.toText
  rw [query_addPair, query_addPair, query_addPair, h, askedFor, hfrom]
  rfl

/-- An address is the text of its characters. -/
theorem seriesUrl_eq (endpoint : String) (productId : Int64) :
    seriesUrl endpoint productId = String.ofList (base endpoint ++ historyPath productId) := by
  rw [← toList_seriesUrl, String.ofList_toList]

/-- An accepted endpoint still opens a URL without its slashes. -/
theorem exists_opens_base {endpoint : String} (h : ValueFault.ofUrl? names endpoint = none) :
    ∃ rest, Opens (base endpoint) rest := by
  rw [ofUrl?_eq_none_iff] at h
  obtain ⟨slashes, hparts, hslashes⟩ := exists_slashes endpoint
  by_cases hne : slashes = []
  · rw [hne, List.append_nil] at hparts
    obtain ⟨rest, hopens, -⟩ := h.exists_opens
    exact ⟨_, hparts ▸ hopens⟩
  · obtain ⟨rest, hopens, -⟩ := (hparts ▸ h).exists_opens_of_slashes hslashes hne
    exact ⟨rest, hopens⟩

/-- **An endpoint makes a request** exactly if the address is a URL. -/
theorem isSome_target?_iff {endpoint : String} (h : ValueFault.ofUrl? names endpoint = none)
    (query : PriceQuery) : (query.target? names endpoint).isSome = true ↔
      ValueFault.ofUrl? names (seriesUrl endpoint query.productId) = none := by
  obtain ⟨rest, hopens⟩ := exists_opens_base h
  have ht := isPlainPath_historyPath query.productId
  rw [target?, Option.isSome_map, ofUrl?_eq_none_iff, toList_seriesUrl, seriesUrl_eq]
  exact hopens.isSome_ofText?_iff ht

/-- What a server is asked for. -/
theorem exists_target {endpoint : String} (h : ValueFault.ofUrl? names endpoint = none)
    {query : PriceQuery}
    (hseries : ValueFault.ofUrl? names (seriesUrl endpoint query.productId) = none)
    (hquery : '?' ∉ endpoint.toList) (hfragment : '#' ∉ endpoint.toList) :
    ∃ target front, query.target? names endpoint = some target ∧
      target.path = front ++ historyPath query.productId ∧
      target.query = some query.askedFor := by
  obtain ⟨rest, hopens⟩ := exists_opens_base h
  have ht := isPlainPath_historyPath query.productId
  rw [ofUrl?_eq_none_iff, toList_seriesUrl, hopens.isWebUrl_append_iff ht] at hseries
  obtain ⟨slashes, hparts, -⟩ := exists_slashes endpoint
  have hbase (c : Char) (hc : c ∉ endpoint.toList) : c ∉ base endpoint := fun hmem =>
    hc (hparts ▸ List.mem_append_left slashes hmem)
  obtain ⟨target, front, htarget, hpath, hnone⟩ :=
    hopens.exists_target ht hseries (hbase '?' hquery) (hbase '#' hfragment)
  refine ⟨_, front, ?_, ?_, query_addPairs hnone query⟩
  · rw [target?, seriesUrl_eq, htarget]
    rfl
  · exact hpath

/-- **Which endpoints make a usable address.** The address made of an accepted
    endpoint is a URL, and a request is made, unless a blank that stands behind
    the endpoint comes to stand in its host or port.  The address names the
    history of the product unless the endpoint has a query or a fragment, which
    then swallows the path.  With neither, the server is asked for the path of
    the history, and for nothing but the days and the bucket.  Which names of
    other scripts are hosts does not matter, as long as none of them has a blank
    or a control character in it. -/
theorem seriesUrl_of_endpoint (hnames : names.RefusesBlanks) {endpoint : String}
    (h : ValueFault.ofUrl? names endpoint = none)
    (productId : Int64) :
    (ValueFault.ofUrl? names (seriesUrl endpoint productId) = none ↔
      keptEdges endpoint.toList = [] ∨ goesOn endpoint.toList = true) ∧
    (NamesHistory (seriesUrl endpoint productId) productId ↔
      ('?' ∉ endpoint.toList ∧ '#' ∉ endpoint.toList) ∨ NamesHistory endpoint productId) ∧
    ∀ query : PriceQuery, query.productId = productId →
      ((query.target? names endpoint).isSome = true ↔
        ValueFault.ofUrl? names (seriesUrl endpoint productId) = none) ∧
      (ValueFault.ofUrl? names (seriesUrl endpoint productId) = none →
        '?' ∉ endpoint.toList → '#' ∉ endpoint.toList →
          ∃ target front, query.target? names endpoint = some target ∧
            target.path = front ++ historyPath productId ∧
            target.query = some query.askedFor) := by
  refine ⟨ofUrl?_seriesUrl_iff hnames h productId,
    namesHistory_seriesUrl_iff endpoint productId, ?_⟩
  rintro query rfl
  exact ⟨isSome_target?_iff h query, fun hseries => exists_target h hseries⟩

/-- The bytes of an international name. -/
def bookName : List UInt8 := "bücher.example".toList.flatMap String.utf8EncodeChar

/-- Tables that know one international name. -/
def bookNames : HostNames where
  ascii? bytes := if bytes = bookName then some "xn--bcher-kva.example".toList else none

/-- An endpoint with an international name and a slash at its end. -/
theorem seriesUrl_of_endpoint_slash :
    bookNames.RefusesBlanks ∧
      ValueFault.ofUrl? bookNames "http://bücher.example:8080/api/" = none ∧
      ValueFault.ofUrl? bookNames (seriesUrl "http://bücher.example:8080/api/" 7) = none ∧
      NamesHistory (seriesUrl "http://bücher.example:8080/api/" 7) 7 ∧
      ∀ query : PriceQuery, query.productId = 7 →
        ∃ target front, query.target? bookNames "http://bücher.example:8080/api/" = some target ∧
          target.path = front ++ historyPath 7 ∧ target.query = some query.askedFor := by
  have hnames : bookNames.RefusesBlanks := by
    rintro bytes ⟨byte, hmem, hblank⟩
    refine if_neg fun hbytes => ?_
    have hall : bookName.all (fun byte => !decide (byte ≤ 0x20)) = true := by decide
    simpa [hblank] using List.all_eq_true.mp hall byte (hbytes ▸ hmem)
  have haccepted : ValueFault.ofUrl? bookNames "http://bücher.example:8080/api/" = none := by
    decide
  obtain ⟨hurl, hhistory, hrequest⟩ := seriesUrl_of_endpoint hnames haccepted 7
  have hseries := hurl.mpr (.inl (by decide))
  refine ⟨hnames, haccepted, hseries, hhistory.mpr (.inl (by decide)), fun query hproduct => ?_⟩
  exact (hrequest query hproduct).2 hseries (by decide) (by decide)

/-- Accepted endpoints that make no usable address: with a blank behind the host,
    with a query and with a fragment. -/
theorem not_every_endpoint_is_usable :
    HostNames.plainOnly.RefusesBlanks ∧
      let accepts (text : String) := ValueFault.ofUrl? .plainOnly text = none
      (accepts "http://h " ∧ ¬ accepts (seriesUrl "http://h " 7)) ∧
        (accepts "http://h?key=1" ∧ ¬ NamesHistory (seriesUrl "http://h?key=1" 7) 7) ∧
        (accepts "http://h#top" ∧ ¬ NamesHistory (seriesUrl "http://h#top" 7) 7) :=
  ⟨HostNames.refusesBlanks_plainOnly, by decide⟩

end PcAssembly.PriceQuery
