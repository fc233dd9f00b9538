import Mathlib.Data.List.DropRight
import PcAssembly.Proofs.Url.Domain

/-! # What decides whether a text is a web URL

    Only the authority does, the part from the slashes behind the scheme up to
    the next slash, question mark or hash: whatever follows may be anything
    (`authorityFault?_append`).  And no authority ends in a blank, be it a name,
    an address in brackets or a port (`authorityFault?_append_edge`). -/

namespace PcAssembly.Url

variable {names : HostNames}

/-! ### Schemes -/

/-- A scheme as it may be written. -/
structure IsSchemeWord (word : List Char) : Prop where
  starts : word.head?.any Char.isAlpha = true
  chars : ∀ c ∈ word, isSchemeChar c = true

/-- The characters of a scheme are taken up to the colon. -/
theorem takeWhile_isSchemeChar {word : List Char} (h : IsSchemeWord word) (rest : List Char) :
    (word ++ ':' :: rest).takeWhile isSchemeChar = word := by
  rw [List.takeWhile_append_of_pos h.chars, List.takeWhile_cons_of_neg (by decide), List.append_nil]

/-- The scheme stands before the first colon. -/
theorem scheme?_eq_some_iff {s rest : List Char} {name : String} :
    scheme? s = some (name, rest) ↔ ∃ word, IsSchemeWord word ∧ s = word ++ ':' :: rest ∧
      name = String.ofList (word.map Char.toLower) := by
  constructor
  · intro h
    cases s with
    | nil => cases h
    | cons first s =>
        rw [scheme?] at h
        split at h
        · rename_i behind hbehind
          split at h
          · rename_i hfirst
            cases h
            have hchar : isSchemeChar first = true := by
              simp [isSchemeChar, Char.isAlphanum, hfirst]
            have hword := List.prefix_iff_eq_append.mp
              (List.takeWhile_prefix isSchemeChar (l := first :: s))
            refine ⟨(first :: s).takeWhile isSchemeChar, ⟨?_, fun c hc => ?_⟩, ?_, rfl⟩
            · rw [List.takeWhile_cons_of_pos hchar]
              exact hfirst
            · exact List.mem_takeWhile_imp hc
            · rw [← hbehind, hword]
          · cases h
        · cases h
  · rintro ⟨word, hword, rfl, rfl⟩
    have htake := takeWhile_isSchemeChar hword rest
    cases word with
    | nil => cases hword.starts
    | cons first word =>
        have hfirst : first.isAlpha = true := hword.starts
        rw [List.cons_append] at htake ⊢
        rw [scheme?, htake, ← List.cons_append, List.drop_left]
        simp [hfirst]

/-- A text without a colon behind does not change the scheme. -/
theorem scheme?_append (s : List Char) {t : List Char} (ht : ':' ∉ t) :
    scheme? (s ++ t) = (scheme? s).map fun (name, rest) => (name, rest ++ t) := by
  refine Option.ext fun (name, rest) => ?_
  rw [Option.map_eq_some_iff, scheme?_eq_some_iff]
  constructor
  · rintro ⟨word, hword, hsame, rfl⟩
    rcases List.append_eq_append_iff.mp hsame with ⟨a, rfl, ha⟩ | ⟨a, rfl, ha⟩
    · exact absurd (ha ▸ List.mem_append_right a List.mem_cons_self) ht
    · cases a with
      | nil => exact absurd ((List.nil_append t ▸ ha) ▸ List.mem_cons_self) ht
      | cons c a =>
          obtain ⟨rfl, rfl⟩ := List.cons.inj ha
          exact ⟨(_, a), scheme?_eq_some_iff.mpr ⟨word, hword, rfl, rfl⟩, rfl⟩
  · rintro ⟨⟨_, rest⟩, hscheme, hsame⟩
    cases hsame
    obtain ⟨word, hword, rfl, rfl⟩ := scheme?_eq_some_iff.mp hscheme
    exact ⟨word, hword, by simp, rfl⟩

/-! ### Authorities -/

/-- The character ends the authority of a web URL. -/
theorem endsAuthority_iff {c : Char} :
    endsAuthority .web c = true ↔ c = '/' ∨ c = '\\' ∨ c = '?' ∨ c = '#' := by
  simp [endsAuthority, isSlash, or_assoc]

/-- No character ends the authority. -/
def Inside (s : List Char) : Prop := ∀ c ∈ s, endsAuthority .web c = false

/-- There is nothing more, or a character that ends the authority. -/
def Ended (s : List Char) : Prop := ∀ c ∈ s.head?, endsAuthority .web c = true

instance : DecidablePred Ended := fun s => inferInstanceAs (Decidable (∀ c ∈ s.head?, _))

theorem ended_nil : Ended [] := nofun

/-- A character that ends the host and port ends them in front of anything. -/
theorem ended_cons {c : Char} (hc : endsAuthority .web c = true) (s : List Char) :
    Ended (c :: s) := by
  rintro _ ⟨⟩
  exact hc

/-- What ends them behind something that ends them is decided in front. -/
theorem ended_append_iff {s t : List Char} (ht : Ended t) : Ended (s ++ t) ↔ Ended s := by
  cases s with
  | nil => exact iff_of_true ht ended_nil
  | cons c s => rfl

/-- Where the authority ends it is over if no character of it ends it. -/
theorem eq_nil_of_inside {s : List Char} (hinside : Inside s) (hended : Ended s) : s = [] := by
  cases s with
  | nil => rfl
  | cons c s =>
      have hc := hinside c List.mem_cons_self
      rw [hended c rfl] at hc
      cases hc

/-- An authority and what is behind it. -/
theorem exists_inside_append (s : List Char) :
    ∃ authority behind, s = authority ++ behind ∧ Inside authority ∧ Ended behind := by
  refine ⟨s.takeWhile (fun c => !endsAuthority .web c),
    s.dropWhile (fun c => !endsAuthority .web c),
    List.takeWhile_append_dropWhile.symm, fun c hc => ?_, fun c hc => ?_⟩
  · simpa using List.mem_takeWhile_imp hc
  · have hfirst := List.head?_dropWhile_not (fun c => !endsAuthority .web c) s
    rw [Option.mem_def.mp hc] at hfirst
    simpa using hfirst

/-- The host and port are taken up to where they end. -/
theorem takeWhile_inside {authority : List Char} (h : Inside authority) {behind : List Char}
    (hbehind : Ended behind) :
    (authority ++ behind).takeWhile (fun c => !endsAuthority .web c) = authority := by
  have hall : ∀ c ∈ authority, (!endsAuthority .web c) = true := fun c hc => by rw [h c hc]; rfl
  rw [List.takeWhile_append_of_pos hall]
  cases behind with
  | nil => simp
  | cons c behind =>
      rw [List.takeWhile_cons_of_neg (by simp [hbehind c rfl]), List.append_nil]

/-- The user information of an authority and the text from its host on. -/
theorem splitUser_append {authority : List Char} (h : Inside authority) {behind : List Char}
    (hbehind : Ended behind) {front host : List Char}
    (hfront : front = authority.rdropWhile (· != '@'))
    (hhost : host = authority.rtakeWhile (· != '@')) :
    splitUser .web (authority ++ behind) =
      (if front = [] then none else some front.dropLast, host ++ behind) := by
  have hparts : front ++ host = authority := by
    rw [hfront, hhost]
    exact List.rdropWhile_append_rtakeWhile
  have hread : splitUser .web (authority ++ behind) =
      if host.length = authority.length then (none, authority ++ behind)
      else (some (authority.take (authority.length - host.length)).dropLast,
        (authority ++ behind).drop
          ((authority.take (authority.length - host.length)).dropLast.length + 1)) := by
    rw [splitUser, takeWhile_inside h hbehind, hhost]
    rfl
  rw [hread, ← hparts]
  by_cases hnil : front = []
  · simp [hnil]
  · have hpositive := List.length_pos_iff.mpr hnil
    have hlength : (front ++ host).length - host.length = front.length := by simp
    rw [if_neg (by simpa using hnil), if_neg hnil, hlength, List.take_left, List.length_dropLast,
      Nat.sub_add_cancel hpositive, List.append_assoc, List.drop_left]

/-- The host and port of an authority stand behind its last `@`. -/
theorem exists_splitUser {authority : List Char} (h : Inside authority) :
    ∃ user front host, authority = front ++ host ∧ (∀ c ∈ front.getLast?, c = '@') ∧
      ∀ behind, Ended behind → splitUser .web (authority ++ behind) = (user, host ++ behind) := by
  refine ⟨_, _, _, List.rdropWhile_append_rtakeWhile.symm, fun c hc => ?_,
    fun behind hbehind => splitUser_append h hbehind rfl rfl⟩
  have hfront : authority.rdropWhile (· != '@') ≠ [] := by
    intro hnil
    rw [hnil] at hc
    cases hc
  have hlast := List.rdropWhile_last_not (· != '@') authority hfront
  rw [List.getLast?_eq_some_getLast hfront] at hc
  cases hc
  simpa using hlast

/-- The name of a host goes up to the first colon that does not stand in
    brackets. -/
theorem exists_spanHost {host : List Char} (h : Inside host) (bracketed : Bool) :
    ∃ name port, host = name ++ port ∧ (∀ c ∈ port.head?, c = ':') ∧
      ∀ behind, Ended behind →
        spanHost .web bracketed (host ++ behind) = (name, port ++ behind) := by
  induction host generalizing bracketed with
  | nil =>
      refine ⟨[], [], rfl, by simp, fun behind hbehind => ?_⟩
      cases behind with
      | nil => rfl
      | cons c behind => simp [spanHost, hbehind c rfl]
  | cons c host ih =>
      have hc := h c List.mem_cons_self
      by_cases hcolon : c = ':' ∧ bracketed = false
      · obtain ⟨rfl, rfl⟩ := hcolon
        exact ⟨[], ':' :: host, rfl, by simp, fun behind hbehind => by simp [spanHost]⟩
      · obtain ⟨name, port, rfl, hport, hspan⟩ := ih (fun d hd => h d (List.mem_cons_of_mem c hd))
          (if c = '[' then true else if c = ']' then false else bracketed)
        refine ⟨c :: name, port, rfl, hport, fun behind hbehind => ?_⟩
        have hspan := hspan behind hbehind
        rw [List.cons_append, spanHost, if_neg (by simpa [hc] using hcolon)]
        dsimp only
        rw [hspan]

/-- A port is made of digits and ends where the authority does. -/
theorem portFault?_eq (s : List Char) :
    portFault? s = if Ended (s.dropWhile Char.isDigit) ∧
      Nat.ofDigitChars 10 (s.takeWhile Char.isDigit) 0 ≤ 65535 then none
    else some .invalidPort := by
  have hdrop : s.drop (s.takeWhile Char.isDigit).length = s.dropWhile Char.isDigit := by
    have hfront := List.prefix_iff_eq_append.mp (List.takeWhile_prefix Char.isDigit (l := s))
    exact List.append_cancel_left (hfront.trans List.takeWhile_append_dropWhile.symm)
  rw [portFault?, hdrop]
  cases s.dropWhile Char.isDigit with
  | nil => simp [ended_nil]
  | cons c rest =>
      have hended : Ended (c :: rest) ↔ c = '/' ∨ c = '\\' ∨ c = '?' ∨ c = '#' := by
        simp [Ended, endsAuthority_iff]
      simp [hended, or_assoc]

/-- The digits of a port are taken up to where the host and port end. -/
theorem span_isDigit_append (port : List Char) {behind : List Char} (hbehind : Ended behind) :
    (port ++ behind).takeWhile Char.isDigit = port.takeWhile Char.isDigit ∧
      (port ++ behind).dropWhile Char.isDigit = port.dropWhile Char.isDigit ++ behind := by
  induction port with
  | nil =>
      cases behind with
      | nil => exact ⟨rfl, rfl⟩
      | cons c behind =>
          have hc : c.isDigit = false := by
            rcases endsAuthority_iff.mp (hbehind c rfl) with rfl | rfl | rfl | rfl <;> rfl
          simp [hc]
  | cons c port ih =>
      by_cases hc : c.isDigit = true
      · simp [hc, ih]
      · simp [hc]

/-- What follows a port is not looked at. -/
theorem portFault?_append (port : List Char) {behind : List Char} (hbehind : Ended behind) :
    portFault? (port ++ behind) = portFault? port := by
  obtain ⟨htake, hdrop⟩ := span_isDigit_append port hbehind
  rw [portFault?_eq, portFault?_eq, htake, hdrop]
  simp only [ended_append_iff hbehind]

/-- What is wrong with the host and port of a web URL. -/
def hostPortFault? (names : HostNames) (name port : List Char) : Option Fault :=
  if name = [] then some .emptyHost
  else hostFault? names name <|> (match port with
    | ':' :: digits => portFault? digits
    | _ => none)

/-- An authority is judged by its host and port. -/
theorem exists_hostPort {authority : List Char} (h : Inside authority) :
    ∃ front name port, authority = front ++ (name ++ port) ∧ (∀ c ∈ front.getLast?, c = '@') ∧
      (∀ c ∈ port.head?, c = ':') ∧ ∀ behind, Ended behind →
        authorityFault? names .web (authority ++ behind) = hostPortFault? names name port := by
  obtain ⟨user, front, host, rfl, hfront, hsplit⟩ := exists_splitUser h
  have hhost : Inside host := fun c hc => h c (List.mem_append_right front hc)
  obtain ⟨name, port, rfl, hport, hspan⟩ := exists_spanHost hhost false
  refine ⟨front, name, port, rfl, hfront, hport, fun behind hbehind => ?_⟩
  rw [authorityFault?, hsplit behind hbehind]
  dsimp only
  rw [hspan behind hbehind]
  cases name with
  | nil => simp [hostPortFault?]
  | cons c name =>
      have hc : endsAuthority .web c = false := hhost c List.mem_cons_self
      cases port with
      | nil =>
          cases behind with
          | nil => simp [hostPortFault?, hc]
          | cons d behind =>
              have hd : d ≠ ':' := by
                rintro rfl
                exact absurd (hbehind ':' rfl) (by decide)
              simp [hostPortFault?, hc, hd]
      | cons d digits =>
          obtain rfl : d = ':' := hport d rfl
          simp [hostPortFault?, hc, portFault?_append digits hbehind]

/-- **What follows an authority is not looked at.** -/
theorem authorityFault?_append {authority : List Char} (h : Inside authority) {behind : List Char}
    (hbehind : Ended behind) :
    authorityFault? names .web (authority ++ behind) = authorityFault? names .web authority := by
  obtain ⟨front, name, port, -, -, -, hfault⟩ := exists_hostPort h
  have hnil := hfault [] ended_nil
  rw [List.append_nil] at hnil
  rw [hfault behind hbehind, hnil]

section

variable {c : Char} (hc : isEdge c = true)
include hc

/-- An edge does not end the host and port. -/
theorem endsAuthority_edge : endsAuthority .web c = false :=
  of_isEdge (P := fun c => endsAuthority .web c = false) (by decide) hc

/-- With an edge behind it, a text inside the host and port still is. -/
theorem inside_append_edge {s : List Char} (h : Inside s) : Inside (s ++ [c]) := by
  simpa [Inside, or_imp, forall_and, endsAuthority_edge hc] using h

/-- No host has an edge behind it. -/
theorem hostFault?_append_edge (hnames : names.RefusesBlanks) (name : List Char) :
    hostFault? names (name ++ [c]) ≠ none := by
  have hdomain := domain?_append_edge hc hnames name
  have hbracket : c ≠ '[' := ne_of_isEdge hc rfl
  have hclosing : c ≠ ']' := ne_of_isEdge hc rfl
  unfold hostFault?
  split
  · rename_i inner hinner
    cases name with
    | nil => exact absurd (List.cons.inj hinner).1 hbracket
    | cons d name =>
        obtain rfl := (List.cons.inj hinner).2
        simp [bracketFault?, hclosing]
  · simp [hdomain]

/-- No port has an edge behind it. -/
theorem portFault?_append_edge {port : List Char} (h : Inside port) :
    portFault? (port ++ [c]) ≠ none := by
  have hdigit : c.isDigit = false := of_isEdge (P := fun c => c.isDigit = false) (by decide) hc
  rw [portFault?_eq, if_neg]
  · exact Option.some_ne_none _
  · rintro ⟨hended, -⟩
    -- nothing of the port ends the authority, so the digits would have to reach the edge
    have hinside := inside_append_edge hc h
    have hnil := eq_nil_of_inside
      (fun d hd => hinside d ((List.dropWhile_suffix Char.isDigit).subset hd)) hended
    have hall := List.dropWhile_eq_nil_iff.mp hnil c (by simp)
    rw [hdigit] at hall
    cases hall

/-- **No authority ends in a blank.** -/
theorem authorityFault?_append_edge (hnames : names.RefusesBlanks) {authority : List Char}
    (h : Inside authority) :
    authorityFault? names .web (authority ++ [c]) ≠ none := by
  have hinside := inside_append_edge hc h
  obtain ⟨front, name, port, hparts, hfront, hport, hfault⟩ := exists_hostPort hinside
  have hfault := hfault [] ended_nil
  rw [List.append_nil] at hfault
  rw [hfault]
  unfold hostPortFault?
  split
  · exact Option.some_ne_none _
  · rename_i hname
    rcases List.eq_nil_or_concat' port with rfl | ⟨digits, d, rfl⟩
    · -- the edge is the last character of the name
      obtain ⟨name, d, rfl⟩ := (List.eq_nil_or_concat' name).resolve_left hname
      have hlast : authority ++ [c] = (front ++ name) ++ [d] := by simp [hparts]
      obtain rfl := List.singleton_inj.mp (List.append_inj_right' hlast rfl)
      simp [hostFault?_append_edge hc hnames name]
    · -- the edge is the last character of the port, and that is not only a colon
      have hlast : authority ++ [c] = (front ++ (name ++ digits)) ++ [d] := by simp [hparts]
      obtain rfl := List.singleton_inj.mp (List.append_inj_right' hlast rfl)
      cases digits with
      | nil => exact absurd (hport c rfl) (ne_of_isEdge hc rfl)
      | cons colon digits =>
          obtain rfl : colon = ':' := hport colon rfl
          have hdigits : Inside digits := fun d hd => hinside d (by simp [hparts, hd])
          have hport := portFault?_append_edge hc hdigits
          simp [hport]

end

end PcAssembly.Url
