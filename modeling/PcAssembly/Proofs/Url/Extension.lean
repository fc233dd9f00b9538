import PcAssembly.Config.Value
import PcAssembly.Proofs.Url.Authority
import PcAssembly.Url.Target

/-! # Web URLs with a path behind them

    A reader of URLs drops blanks at the end of a text, but a text that goes on
    behind them keeps them.  A path put behind a web URL then is part of a web
    URL unless the blanks in between come to stand in the host or the port
    (`isWebUrl_append_iff`).  Behind slashes a path may always follow. -/

namespace PcAssembly.Url

variable {names : HostNames}

/-! ### Edges -/

/-- The character is not skipped inside a URL. -/
def isKeptInside (c : Char) : Bool := c != '\t' && c != '\n' && c != '\r'

/-- The blanks and control characters at the end of a text that are not skipped
    when the text goes on. -/
def keptEdges (s : List Char) : List Char :=
  (s.rtakeWhile isEdge).filter isKeptInside

/-- The characters of a URL are characters of its text. -/
theorem mem_of_mem_urlChars {s : List Char} {c : Char} (h : c ∈ urlChars s) : c ∈ s := by
  have hend := (List.rdropWhile_prefix isEdge (s.dropWhile isEdge)).subset
    (List.mem_of_mem_filter h)
  exact (List.dropWhile_suffix isEdge).subset hend

/-- The edges that are kept are characters of the text. -/
theorem mem_of_mem_keptEdges {s : List Char} {c : Char} (h : c ∈ keptEdges s) : c ∈ s :=
  (List.rtakeWhile_suffix isEdge s).subset (List.mem_of_mem_filter h)

/-- The edges that are kept are edges. -/
theorem isEdge_of_mem_keptEdges {s : List Char} {c : Char} (h : c ∈ keptEdges s) :
    isEdge c = true :=
  List.mem_rtakeWhile_imp (List.mem_of_mem_filter h)

/-- Something is left behind the edges if not all of a text is edges. -/
theorem dropWhile_isEdge_ne_nil {s : List Char} (h : ∃ c ∈ s, isEdge c = false) :
    s.dropWhile isEdge ≠ [] := by
  intro hnil
  obtain ⟨c, hmem, hc⟩ := h
  rw [List.dropWhile_eq_nil_iff.mp hnil c hmem] at hc
  cases hc

/-- The edges in front of a text do not change those behind it. -/
theorem rtakeWhile_dropWhile {s : List Char} (h : ∃ c ∈ s, isEdge c = false) :
    (s.dropWhile isEdge).rtakeWhile isEdge = s.rtakeWhile isEdge := by
  have hne := dropWhile_isEdge_ne_nil h
  have hlength : ((s.dropWhile isEdge).reverse.takeWhile isEdge).length ≠
      (s.dropWhile isEdge).reverse.length := by
    intro hlength
    have hall := List.takeWhile_eq_self_iff.mp
      ((List.takeWhile_prefix isEdge).eq_of_length hlength)
    have hfirst := List.head_dropWhile_not isEdge hne
    rw [hall _ (List.mem_reverse.mpr (List.head_mem hne))] at hfirst
    cases hfirst
  rw [List.rtakeWhile, List.rtakeWhile]
  conv_rhs => rw [← List.takeWhile_append_dropWhile (p := isEdge) (l := s)]
  rw [List.reverse_append, List.takeWhile_append, if_neg hlength]

/-- What the characters of a text become when it goes on. -/
theorem urlChars_append {s t : List Char} (hs : ∃ c ∈ s, isEdge c = false) (ht : t ≠ [])
    (hkept : ∀ c ∈ t, isEdge c = false) :
    urlChars (s ++ t) = urlChars s ++ (keptEdges s ++ t) := by
  have hfront : (s ++ t).dropWhile isEdge = s.dropWhile isEdge ++ t := by
    rw [List.dropWhile_append, if_neg (by simpa using dropWhile_isEdge_ne_nil hs)]
  have hend : (s.dropWhile isEdge ++ t).rdropWhile isEdge = s.dropWhile isEdge ++ t := by
    refine List.rdropWhile_eq_self_iff.mpr fun hne => ?_
    rw [List.getLast_append_of_ne_nil _ ht, hkept _ (List.getLast_mem ht)]
    exact Bool.false_ne_true
  have hinside : t.filter isKeptInside = t := by
    refine List.filter_eq_self.mpr fun c hc => ?_
    have hc := hkept c hc
    rw [isKeptInside, Bool.and_eq_true, Bool.and_eq_true, bne_iff_ne, bne_iff_ne, bne_iff_ne]
    refine ⟨⟨?_, ?_⟩, ?_⟩ <;> (rintro rfl; cases hc)
  have hparts : (s.dropWhile isEdge).rdropWhile isEdge ++ s.rtakeWhile isEdge =
      s.dropWhile isEdge := by
    rw [← rtakeWhile_dropWhile hs]
    exact List.rdropWhile_append_rtakeWhile
  have hread (s : List Char) :
      urlChars s = ((s.dropWhile isEdge).rdropWhile isEdge).filter isKeptInside := rfl
  rw [hread, hread, hfront, hend, List.filter_append, hinside, ← List.append_assoc, keptEdges,
    ← List.filter_append, hparts]

/-! ### Web URLs -/

/-- The text is a URL of one of the two schemes of the web. -/
def IsWebUrl (names : HostNames) (s : List Char) : Prop :=
  ∃ name rest, scheme? (urlChars s) = some (name, rest) ∧ (name = "http" ∨ name = "https") ∧
    authorityFault? names .web (rest.dropWhile (isSlash .web)) = none

/-- The values of a setting that are web addresses. -/
theorem ofUrl?_eq_none_iff {value : String} :
    ValueFault.ofUrl? names value = none ↔ IsWebUrl names value.toList := by
  by_cases hempty : value = ""
  · subst hempty
    exact iff_of_false nofun fun ⟨_, _, hscheme, _⟩ => nomatch hscheme
  rw [ValueFault.ofUrl?, if_neg (by simpa using hempty), scheme, IsWebUrl]
  cases hscheme : scheme? (urlChars value.toList) with
  | none => simp
  | some found =>
      obtain ⟨name, rest⟩ := found
      dsimp only
      by_cases hname : name = "http" ∨ name = "https"
      · have hkind : SchemeKind.of name = .web := by
          rcases hname with rfl | rfl <;> rfl
        rw [hkind, restFault?]
        cases hfault : authorityFault? names .web (rest.dropWhile (isSlash .web)) with
        | none => simp [hname, hfault]
        | some fault => simp [hfault]
      · cases restFault? names (.of name) rest with
        | none => simp [hname]
        | some fault => simp [hname]

/-- The URL goes on behind its host and port, with a path, a query or a
    fragment. -/
def goesOn (s : List Char) : Bool :=
  match scheme? (urlChars s) with
  | some (_, rest) => (rest.dropWhile (isSlash .web)).any (endsAuthority .web)
  | none => false

/-- What follows an authority or a path behind it is not looked at. -/
theorem authorityFault?_append_ended (s : List Char) {t : List Char} (ht : Ended t) :
    authorityFault? names .web (s ++ t) = authorityFault? names .web s := by
  obtain ⟨authority, behind, rfl, hinside, hended⟩ := exists_inside_append s
  rw [List.append_assoc, authorityFault?_append hinside hended,
    authorityFault?_append hinside ((ended_append_iff ht).mpr hended)]

/-- Slashes in front are skipped whatever follows behind them. -/
theorem dropWhile_isSlash_append {rest : List Char} (h : rest.dropWhile (isSlash .web) ≠ [])
    (t : List Char) :
    (rest ++ t).dropWhile (isSlash .web) = rest.dropWhile (isSlash .web) ++ t := by
  rw [List.dropWhile_append, if_neg (by simpa using h)]

/-- A text without a fault has a host. -/
theorem ne_nil_of_authorityFault? {s : List Char} (h : authorityFault? names .web s = none) :
    s ≠ [] := by
  rintro rfl
  cases h

/-- The scheme and the rest of a text are in it, and a colon between them. -/
theorem mem_of_scheme? {s rest : List Char} {name : String} (h : scheme? s = some (name, rest)) :
    ':' ∈ s ∧ ∀ c ∈ rest, c ∈ s := by
  obtain ⟨word, -, rfl, -⟩ := scheme?_eq_some_iff.mp h
  exact ⟨List.mem_append_right word List.mem_cons_self,
    fun c hc => List.mem_append_right word (List.mem_cons_of_mem ':' hc)⟩

/-- The text of a web URL has a colon in it. -/
theorem IsWebUrl.mem_colon {s : List Char} (h : IsWebUrl names s) : ':' ∈ s := by
  obtain ⟨name, rest, hscheme, -, -⟩ := h
  exact mem_of_mem_urlChars (mem_of_scheme? hscheme).1

/-! ### Paths behind a text -/

/-- The character stands for itself in a path: it is not escaped, starts no
    escape, and has no other meaning in a URL. -/
def isPlain (c : Char) : Bool := isPathChar c && !"%.:\\".toList.contains c

/-- A path in plain characters. -/
structure IsPlainPath (t : List Char) : Prop where
  starts : t.head? = some '/'
  plain : ∀ c ∈ t, isPlain c = true

/-- The text starts a web URL, with something behind the slashes after its
    scheme; a path that follows comes to stand behind `rest`. -/
structure Opens (s rest : List Char) : Prop where
  exists_scheme : ∃ name slashed, scheme? (urlChars s ++ keptEdges s) = some (name, slashed) ∧
    (name = "http" ∨ name = "https") ∧ slashed.dropWhile (isSlash .web) = rest
  rest_ne_nil : rest ≠ []

namespace IsPlainPath

variable {t : List Char} (ht : IsPlainPath t)
include ht

/-- A plain path starts with a slash. -/
theorem exists_cons : ∃ steps, t = '/' :: steps := by
  cases t with
  | nil => cases ht.starts
  | cons c steps => exact ⟨steps, by rw [Option.some.inj ht.starts]⟩

/-- A plain path is not empty. -/
theorem ne_nil : t ≠ [] := by
  obtain ⟨steps, rfl⟩ := ht.exists_cons
  exact List.cons_ne_nil _ _

/-- A plain path ends a host and port. -/
theorem ended : Ended t := by
  obtain ⟨steps, rfl⟩ := ht.exists_cons
  exact ended_cons rfl steps

/-- A character of a plain path is none that is not plain. -/
theorem ne_of_mem {c d : Char} (hc : c ∈ t) (hd : isPlain d = false) : c ≠ d := by
  rintro rfl
  rw [ht.plain c hc] at hd
  cases hd

/-- No character of a plain path is an edge. -/
theorem isEdge_eq_false {c : Char} (hc : c ∈ t) : isEdge c = false := by
  refine Bool.eq_false_iff.mpr fun hedge => ?_
  have hplain := of_isEdge (P := fun c => isPlain c = false) (by decide) hedge
  exact ht.ne_of_mem hc hplain rfl

/-- A plain path has no colon. -/
theorem not_mem_colon : ':' ∉ t := fun hmem => ht.ne_of_mem hmem rfl rfl

end IsPlainPath

namespace Opens

variable {s rest t : List Char} (h : Opens s rest)
include h

/-- The colon of the scheme stands in the text. -/
theorem mem_colon : ':' ∈ s := by
  obtain ⟨name, slashed, hscheme, -, -⟩ := h.exists_scheme
  rcases List.mem_append.mp (mem_of_scheme? hscheme).1 with hmem | hmem
  · exact mem_of_mem_urlChars hmem
  · exact mem_of_mem_keptEdges hmem

/-- What follows the scheme stands in the text. -/
theorem mem_of_mem_rest {c : Char} (hc : c ∈ rest) : c ∈ s := by
  obtain ⟨name, slashed, hscheme, -, rfl⟩ := h.exists_scheme
  have hmem := (mem_of_scheme? hscheme).2 c ((List.dropWhile_suffix _).subset hc)
  rcases List.mem_append.mp hmem with hmem | hmem
  · exact mem_of_mem_urlChars hmem
  · exact mem_of_mem_keptEdges hmem

variable (ht : IsPlainPath t)
include ht

/-- The scheme of a text with a path behind it, and what comes after the
    slashes. -/
theorem exists_scheme_append : ∃ name slashed,
    scheme? (urlChars (s ++ t)) = some (name, slashed) ∧ (name = "http" ∨ name = "https") ∧
      slashed.dropWhile (isSlash .web) = rest ++ t := by
  obtain ⟨name, slashed, hscheme, hname, rfl⟩ := h.exists_scheme
  have hs : ∃ c ∈ s, isEdge c = false := ⟨':', h.mem_colon, rfl⟩
  refine ⟨name, slashed ++ t, ?_, hname, dropWhile_isSlash_append h.rest_ne_nil t⟩
  rw [urlChars_append hs ht.ne_nil fun c hc => ht.isEdge_eq_false hc, ← List.append_assoc,
    scheme?_append _ ht.not_mem_colon, hscheme]
  rfl

/-- With a plain path behind it, a text is a web URL if what follows its
    scheme is one. -/
theorem isWebUrl_append_iff : IsWebUrl names (s ++ t) ↔ authorityFault? names .web rest = none := by
  obtain ⟨name, slashed, hscheme, hname, hrest⟩ := h.exists_scheme_append ht
  rw [IsWebUrl, hscheme, ← authorityFault?_append_ended rest ht.ended, ← hrest]
  constructor
  · rintro ⟨_, _, ⟨⟩, -, hfault⟩
    exact hfault
  · exact fun hfault => ⟨name, slashed, rfl, hname, hfault⟩

end Opens

/-- A web URL that ends in slashes opens without them. -/
theorem IsWebUrl.exists_opens_of_slashes {s slashes : List Char} (h : IsWebUrl names (s ++ slashes))
    (hslashes : ∀ c ∈ slashes, c = '/') (hne : slashes ≠ []) :
    ∃ rest, Opens s rest ∧ authorityFault? names .web rest = none := by
  have hmark : ':' ∉ slashes := fun hmem => nomatch hslashes ':' hmem
  have hs : ∃ c ∈ s, isEdge c = false :=
    ⟨':', (List.mem_append.mp h.mem_colon).resolve_right hmark, rfl⟩
  have hslash : ∀ c ∈ slashes, isSlash .web c = true := fun c hc => by rw [hslashes c hc]; rfl
  have hended : Ended slashes := fun c hc => by
    rw [hslashes c (List.mem_of_head? hc)]
    rfl
  obtain ⟨name, rest, hscheme, hname, hfault⟩ := h
  rw [urlChars_append hs hne fun c hc => by rw [hslashes c hc]; rfl, ← List.append_assoc,
    scheme?_append _ hmark] at hscheme
  obtain ⟨⟨name, slashed⟩, hfront, hsame⟩ := Option.map_eq_some_iff.mp hscheme
  cases hsame
  have hrest : slashed.dropWhile (isSlash .web) ≠ [] := by
    intro hnil
    refine ne_nil_of_authorityFault? hfault (List.dropWhile_eq_nil_iff.mpr ?_)
    exact List.forall_mem_append.mpr ⟨List.dropWhile_eq_nil_iff.mp hnil, hslash⟩
  rw [dropWhile_isSlash_append hrest, authorityFault?_append_ended _ hended] at hfault
  exact ⟨_, ⟨⟨name, slashed, hfront, hname, rfl⟩, hrest⟩, hfault⟩

/-- A web URL opens; blanks that stand behind it come to stand in the host or the
    port unless these have ended. -/
theorem IsWebUrl.exists_opens {s : List Char} (h : IsWebUrl names s) :
    ∃ rest, Opens s (rest ++ keptEdges s) ∧ authorityFault? names .web rest = none ∧
      goesOn s = rest.any (endsAuthority .web) := by
  obtain ⟨name, slashed, hscheme, hname, hfault⟩ := h
  have hrest := ne_nil_of_authorityFault? hfault
  have hmark : ':' ∉ keptEdges s := fun hmem => ne_of_isEdge (isEdge_of_mem_keptEdges hmem) rfl rfl
  refine ⟨_, ⟨⟨name, slashed ++ keptEdges s, ?_, hname, dropWhile_isSlash_append hrest _⟩, ?_⟩,
    hfault, ?_⟩
  · rw [scheme?_append _ hmark, hscheme]
    rfl
  · exact List.append_ne_nil_of_left_ne_nil hrest _
  · rw [goesOn, hscheme]

/-- Blanks behind a URL come to stand in its host or port, where they must not
    stand, or they come behind. -/
theorem authorityFault?_append_keptEdges_iff (hnames : names.RefusesBlanks)
    {s rest : List Char} (h : authorityFault? names .web rest = none) :
    authorityFault? names .web (rest ++ keptEdges s) = none ↔
      keptEdges s = [] ∨ rest.any (endsAuthority .web) = true := by
  obtain ⟨authority, behind, rfl, hinside, hended⟩ := exists_inside_append rest
  cases behind with
  | cons c behind =>
      have hbehind : Ended (c :: behind ++ keptEdges s) := ended_cons (hended c rfl) _
      rw [authorityFault?_append hinside hended] at h
      rw [List.append_assoc, authorityFault?_append hinside hbehind]
      exact iff_of_true h (.inr (by simp [hended c rfl]))
  | nil =>
      rw [List.append_nil] at h ⊢
      have hnone : authority.any (endsAuthority .web) = false := by
        simpa [Inside] using hinside
      rw [hnone]
      rcases List.eq_nil_or_concat' (keptEdges s) with hnil | ⟨edges, c, hlast⟩
      · simp [hnil, h]
      · have hedges : ∀ d ∈ keptEdges s, endsAuthority .web d = false := fun d hd =>
          endsAuthority_edge (isEdge_of_mem_keptEdges hd)
        have hc : isEdge c = true := isEdge_of_mem_keptEdges (s := s) (by simp [hlast])
        rw [hlast] at hedges ⊢
        have hfront : Inside (authority ++ edges) :=
          List.forall_mem_append.mpr ⟨hinside, fun d hd => hedges d (List.mem_append_left _ hd)⟩
        have hfault := authorityFault?_append_edge hc hnames hfront
        rw [List.append_assoc] at hfault
        exact iff_of_false hfault (by simp)

/-- **A path may follow a web URL** unless blanks in between would come to stand
    in its host or port. -/
theorem isWebUrl_append_iff (hnames : names.RefusesBlanks) {s t : List Char}
    (h : IsWebUrl names s) (ht : IsPlainPath t) :
    IsWebUrl names (s ++ t) ↔ keptEdges s = [] ∨ goesOn s = true := by
  obtain ⟨rest, hopens, hfault, hgoes⟩ := h.exists_opens
  rw [hopens.isWebUrl_append_iff ht, hgoes]
  exact authorityFault?_append_keptEdges_iff hnames hfault

/-- **A path may stand in place of slashes** at the end of a web URL. -/
theorem IsWebUrl.append_path {s slashes t : List Char} (h : IsWebUrl names (s ++ slashes))
    (hslashes : ∀ c ∈ slashes, c = '/') (hne : slashes ≠ []) (ht : IsPlainPath t) :
    IsWebUrl names (s ++ t) := by
  obtain ⟨rest, hopens, hfault⟩ := h.exists_opens_of_slashes hslashes hne
  exact (hopens.isWebUrl_append_iff ht).mpr hfault

end PcAssembly.Url
