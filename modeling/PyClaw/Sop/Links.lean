import PyClaw.Lib.Url
import PyClaw.Sop.DuplicateCheck

/-!
# Sop.Links

The links in what the extraction stores. The filter of `_validate_sop` looks at the text behind `http://` and
wants a whitelisted host and then an end, a slash, a colon, a question mark or a hash; a client takes the host
from behind the user info.

* `authorities_of_stored`: the links of the stored content are links of the text that the filter has read.
* `whitelisted_iff`: what makes a host that the filter's test accepts one of the whitelist.
* `extraction_links_iff`: the stored links are whitelisted exactly if the test accepts what is behind their
  user info as well, and their hosts are in ASCII letters.
-/

namespace PyClaw

open Url

/-- The hosts of the whitelist. -/
def allowedHosts : List String :=
  ["github.com", "docs.python.org", "docs.djangoproject.com", "stackoverflow.com"]

def Whitelisted (host : List Char) : Prop := ∃ h ∈ allowedHosts, host.map Char.toLower = h.toList

/-- Every link has a whitelisted host; a URL without a host is none. -/
def OnlyWhitelistedLinks (isSpace : Char → Bool) (content : List Char) : Prop :=
  ∀ a ∈ authorities isSpace content, hostOf a ≠ [] → Whitelisted (hostOf a)

/-- The hosts are in ASCII letters, and where there is user info the filter's test for a host accepts what is
behind it. -/
def PlainLinks (isSpace : Char → Bool) (content : List Char) : Prop :=
  ∀ a ∈ authorities isSpace content, hostOf a ≠ [] →
    (∀ c ∈ hostOf a, c.toNat < 128) ∧
      ('@' ∈ a → allowedHostAt ((behindUserInfo a).map foldAscii) = true)

/-- White space is not in URIs, and no letter for a case-insensitive pattern. -/
def SpacesApart (isSpace : Char → Bool) : Prop :=
  ∀ c, isSpace c = true → uriChar c = false ∧ foldAscii c = c

instance (host : List Char) : Decidable (Whitelisted host) :=
  inferInstanceAs (Decidable (∃ h ∈ allowedHosts, host.map Char.toLower = h.toList))

/-! ## Letters -/

theorem foldAscii_eq_toLower {c : Char} (h : c.toNat < 128) : foldAscii c = c.toLower := by
  unfold foldAscii
  cases hupper : c.isUpper with
  | true => rfl
  | false =>
    rw [if_neg Bool.false_ne_true, if_neg (by omega), if_neg (by omega), if_neg (by omega),
      toLower_of_not_isUpper hupper]

/-- What is folded is a letter, in upper case or beyond ASCII, and becomes one in lower case. -/
theorem foldAscii_cases (c : Char) :
    foldAscii c = c ∨ ((foldAscii c).isLower = true ∧ (c.isUpper = true ∨ 128 ≤ c.toNat)) := by
  unfold foldAscii
  split
  · rename_i hupper
    exact .inr ⟨toLower_of_isUpper hupper, .inl hupper⟩
  · split
    · exact .inr ⟨rfl, .inr (by omega)⟩
    · split
      · exact .inr ⟨rfl, .inr (by omega)⟩
      · split
        · exact .inr ⟨rfl, .inr (by omega)⟩
        · exact .inl rfl

/-- No other character is folded to one that is no letter. -/
theorem eq_of_foldAscii {c d : Char} (h : foldAscii c = d) (hd : d.isLower = false) : c = d := by
  rcases foldAscii_cases c with hsame | ⟨hlower, -⟩
  · rw [← hsame, h]
  · rw [h, hd] at hlower
    cases hlower

/-- A letter that is folded into a URI is in a URL. -/
theorem linkChar_of_foldAscii {isSpace : Char → Bool} (hspace : SpacesApart isSpace) {c : Char}
    (h : uriChar (foldAscii c) = true) : linkChar isSpace c = true := by
  rcases foldAscii_cases c with hsame | ⟨-, hupper | hlarge⟩
  · rw [hsame] at h
    exact linkChar_of_uriChar h
  · exact linkChar_of_uriChar (uriChar_of_isUpper hupper)
  · cases hc : isSpace c with
    | false => simp [linkChar, hlarge, hc]
    | true =>
      rw [(hspace c hc).2] at h
      exact linkChar_of_uriChar h

theorem starts_map_foldAscii {literal text : List Char} (hliteral : ∀ c ∈ literal, uriChar c = true)
    (h : literal <+: text.map Char.toLower) : literal <+: text.map foldAscii := by
  induction literal generalizing text with
  | nil => exact List.nil_prefix
  | cons p literal ih =>
    cases text with
    | nil => simp at h
    | cons c text =>
      rw [List.map_cons, List.cons_prefix_cons] at h ⊢
      obtain ⟨rfl, hrest⟩ := h
      have hascii := toNat_lt_of_uriChar (uriChar_of_toLower (hliteral _ List.mem_cons_self))
      exact ⟨(foldAscii_eq_toLower hascii).symm,
        ih (fun c hc => hliteral c (List.mem_cons_of_mem _ hc)) hrest⟩

/-! ## The filter -/

theorem after_of_starts {literal : String} {text : List Char} (h : literal.toList <+: text) :
    after literal text = some (text.drop literal.toList.length) := by
  rw [after, if_pos h]

/-- A whitelisted host, and an end or what may follow it. -/
theorem allowedHostAt_iff {text : List Char} : allowedHostAt text = true ↔
    ∃ h ∈ allowedHosts, ∃ rest, text = h.toList ++ rest ∧
      ∀ c ∈ rest.head?, c ∈ "/:?#".toList ∨ (c = '\n' ∧ rest = ['\n']) := by
  rw [allowedHostAt, List.any_eq_true]
  refine exists_congr fun h => and_congr_right fun _ => ?_
  unfold after
  constructor
  · intro hmatch
    split at hmatch
    · rename_i heq
      split at heq
      · rename_i hprefix
        obtain ⟨rest, rfl⟩ := hprefix
        rw [List.drop_left] at heq
        obtain rfl := Option.some.inj heq
        exact ⟨[], rfl, by simp⟩
      · cases heq
    · rename_i c tail heq
      split at heq
      · rename_i hprefix
        obtain ⟨rest, rfl⟩ := hprefix
        rw [List.drop_left] at heq
        obtain rfl := Option.some.inj heq
        refine ⟨c :: tail, rfl, ?_⟩
        intro d hd
        obtain rfl := Option.some.inj hd
        simp only [Bool.or_eq_true, Bool.and_eq_true, decide_eq_true_eq, List.contains_iff_mem] at hmatch
        rcases hmatch with hdelimiter | ⟨rfl, rfl⟩
        · exact .inl hdelimiter
        · exact .inr ⟨rfl, rfl⟩
      · cases heq
    · cases hmatch
  · rintro ⟨rest, rfl, hrest⟩
    rw [if_pos (List.prefix_append _ _), List.drop_left]
    cases rest with
    | nil => rfl
    | cons c tail =>
      simp only [Bool.or_eq_true, Bool.and_eq_true, decide_eq_true_eq, List.contains_iff_mem]
      rcases hrest c rfl with hdelimiter | ⟨rfl, htail⟩
      · exact .inl hdelimiter
      · exact .inr ⟨rfl, by simpa using htail⟩

/-- The characters of the hosts of the whitelist. -/
theorem allowedHosts_chars : ∀ h ∈ allowedHosts, ∀ c ∈ h.toList,
    uriChar c = true ∧ c.toNat < 128 ∧ c ∉ "/?#:[@".toList := by
  intro h hh
  refine List.all_iff_forall_prop.mp ?_
  revert h
  decide

theorem allowedHosts_ne_nil : ∀ h ∈ allowedHosts, h.toList ≠ [] := by decide

theorem foldAscii_delimiter : ∀ c ∈ "/?#:[@".toList, foldAscii c = c :=
  List.all_iff_forall_prop.mp (by decide)

section
variable {isSpace : Char → Bool}

/-- A text that folds to a whitelisted host has no delimiter in it. -/
theorem delimiter_not_mem {host : String} (hhost : host ∈ allowedHosts) {x : List Char}
    (hx : x.map foldAscii = host.toList) : ∀ d ∈ "/?#:[@".toList, d ∉ x := by
  intro d hd hmem
  have hfold : foldAscii d ∈ host.toList := by
    rw [← hx]
    exact List.mem_map_of_mem hmem
  rw [foldAscii_delimiter d hd] at hfold
  exact (allowedHosts_chars host hhost d hfold).2.2 hd

theorem foldAscii_ne_newline {c : Char} (h : authorityChar isSpace c = true) : foldAscii c ≠ '\n' := by
  intro hnewline
  obtain rfl := eq_of_foldAscii hnewline (by decide)
  have hlink := linkChar_of_authorityChar h
  rw [linkChar_newline] at hlink
  cases hlink

/-- The filter's test for a host looks at the authority only. -/
theorem allowedHostAt_authority (hspace : SpacesApart isSpace) {rest : List Char}
    (h : allowedHostAt (rest.map foldAscii) = true) :
    allowedHostAt ((rest.takeWhile (authorityChar isSpace)).map foldAscii) = true := by
  obtain ⟨host, hhost, tail, heq, htail⟩ := allowedHostAt_iff.mp h
  obtain ⟨x, y, rfl, hx, rfl⟩ := List.map_eq_append_iff.mp heq
  have hauthority : ∀ c ∈ x, authorityChar isSpace c = true := by
    intro c hc
    obtain ⟨huri, -, -⟩ := allowedHosts_chars host hhost (foldAscii c) (hx ▸ List.mem_map_of_mem hc)
    rw [authorityChar, linkChar_of_foldAscii hspace huri, Bool.true_and, Bool.not_eq_true',
      Bool.eq_false_iff]
    intro hmem
    have hmem' : c ∈ "/?#:[@".toList :=
      (by decide : "/?#".toList ⊆ "/?#:[@".toList) (List.contains_iff_mem.mp hmem)
    exact delimiter_not_mem hhost hx c hmem' hc
  rw [List.takeWhile_append_of_pos hauthority, List.map_append, hx]
  refine allowedHostAt_iff.mpr ⟨host, hhost, _, rfl, ?_⟩
  intro d hd
  cases y with
  | nil => cases hd
  | cons e y =>
    rw [List.takeWhile_cons] at hd
    split at hd
    · rename_i he
      obtain rfl := Option.some.inj hd
      rcases htail _ rfl with hdelimiter | ⟨hnewline, -⟩
      · exact .inl hdelimiter
      · exact absurd hnewline (foldAscii_ne_newline he)
    · cases hd

/-- What follows a scheme for the reader of a link follows it for the filter. -/
theorem after_of_schemeRest {rest tail : List Char} (h : schemeRest rest = some tail) :
    (after "http://" (rest.map foldAscii)).or (after "https://" (rest.map foldAscii)) =
      some (tail.map foldAscii) := by
  unfold schemeRest at h
  split at h
  · rename_i hscheme
    obtain rfl := Option.some.inj h
    rw [after_of_starts (starts_map_foldAscii (List.all_iff_forall_prop.mp (by decide)) hscheme), Option.some_or, List.map_drop]
    rfl
  · split at h
    · rename_i hscheme
      obtain rfl := Option.some.inj h
      have hfold := starts_map_foldAscii (List.all_iff_forall_prop.mp (by decide)) hscheme
      have hnot : ¬ "http://".toList <+: rest.map foldAscii := by
        intro hhttp
        have hshort := List.prefix_of_prefix_length_le hhttp hfold (by decide)
        revert hshort
        decide
      rw [after_of_starts hfold, after, if_neg hnot, Option.none_or, List.map_drop]
      rfl
    · cases h

/-- White space after folding was white space before, and is in no link. -/
theorem linkChar_of_isSpace_foldAscii (hspace : SpacesApart isSpace) {c : Char}
    (h : isSpace (foldAscii c) = true) : linkChar isSpace c = false := by
  rcases foldAscii_cases c with hsame | ⟨hlower, -⟩
  · rw [hsame] at h
    simp [linkChar, (hspace c h).1, h]
  · have huri := (hspace _ h).1
    rw [uriChar_of_isLower hlower] at huri
    cases huri

/-- What the filter says about the links of a text that it lets through. -/
theorem allowed_of_not_dangerous (hspace : SpacesApart isSpace) {text a : List Char}
    (h : dangerous isSpace text = false) (ha : a ∈ authorities isSpace text) :
    a = [] ∨ allowedHostAt (a.map foldAscii) = true := by
  obtain ⟨rest, hrest, hlink⟩ := mem_authorities.mp ha
  obtain ⟨tail, htail, rfl⟩ := Option.map_eq_some_iff.mp hlink
  have hforeign : foreignUrlAt isSpace (rest.map foldAscii) = false := by
    rw [dangerous, List.any_eq_false] at h
    have hone := h (rest.map foldAscii) ((List.mem_tails _ _).mpr (hrest.map foldAscii))
    simp only [Bool.or_eq_true, not_or, Bool.not_eq_true] at hone
    exact hone.2
  unfold foreignUrlAt at hforeign
  rw [after_of_schemeRest htail] at hforeign
  cases tail with
  | nil => exact .inl rfl
  | cons c tail =>
    simp only [List.map_cons, Bool.and_eq_false_iff, Bool.not_eq_false'] at hforeign
    rcases hforeign with hallowed | hblank
    · exact .inr (allowedHostAt_authority hspace hallowed)
    · -- the character after the slashes is white space
      left
      have hc := linkChar_of_isSpace_foldAscii hspace hblank
      rw [List.takeWhile_cons, if_neg]
      intro hauthority
      rw [linkChar_of_authorityChar hauthority] at hc
      cases hc

/-! ## Hosts -/

theorem map_foldAscii_of_ascii {x : List Char} (h : ∀ c ∈ x, c.toNat < 128) :
    x.map foldAscii = x.map Char.toLower :=
  List.map_congr_left fun c hc => foldAscii_eq_toLower (h c hc)

/-- Of the characters that may follow a host only the colon is in an authority. -/
theorem eq_colon_of_follows {e : Char} (he : authorityChar isSpace e = true)
    (h : foldAscii e ∈ "/:?#".toList) : e = ':' := by
  have hlower : ∀ d ∈ "/:?#".toList, d.isLower = false := List.all_iff_forall_prop.mp (by decide)
  have hsame : e = foldAscii e := eq_of_foldAscii rfl (hlower _ h)
  rw [← hsame] at h
  rw [authorityChar, Bool.and_eq_true, Bool.not_eq_true'] at he
  have hone : e = '/' ∨ e = ':' ∨ e = '?' ∨ e = '#' := by simpa using h
  rcases hone with rfl | rfl | rfl | rfl
  · exact absurd he.2 (by decide)
  · rfl
  · exact absurd he.2 (by decide)
  · exact absurd he.2 (by decide)

/-- A host is whitelisted if it is in ASCII letters and passes the filter's test. -/
theorem whitelisted_iff {x : List Char} (hx : ∀ c ∈ x, authorityChar isSpace c = true) :
    Whitelisted (hostBefore x) ↔
      (∀ c ∈ hostBefore x, c.toNat < 128) ∧ allowedHostAt (x.map foldAscii) = true := by
  constructor
  · rintro ⟨host, hhost, hlower⟩
    have hchars := allowedHosts_chars host hhost
    have hbracket : ∀ rest, x ≠ '[' :: rest := by
      rintro rest rfl
      have hmem : '[' ∈ host.toList := hlower ▸ List.mem_cons_self
      exact (hchars _ hmem).2.2 (by decide)
    rw [hostBefore_of_ne hbracket] at hlower ⊢
    have hascii : ∀ c ∈ x.takeWhile (· ≠ ':'), c.toNat < 128 := by
      intro c hc
      have hmem : c.toLower ∈ host.toList := by
        rw [← hlower]
        exact List.mem_map_of_mem hc
      exact toNat_lt_of_uriChar (uriChar_of_toLower (hchars _ hmem).1)
    refine ⟨hascii, allowedHostAt_iff.mpr ⟨host, hhost, (x.dropWhile (· ≠ ':')).map foldAscii, ?_, ?_⟩⟩
    · rw [← hlower, ← map_foldAscii_of_ascii hascii, ← List.map_append, List.takeWhile_append_dropWhile]
    · intro d hd
      rw [List.head?_map] at hd
      obtain ⟨e, he, rfl⟩ := Option.map_eq_some_iff.mp hd
      have hcolon := List.head?_dropWhile_not (fun c : Char => decide (c ≠ ':')) x
      rw [he] at hcolon
      have hcolon' : e = ':' := by simpa using hcolon
      subst hcolon'
      exact .inl (by decide)
  · rintro ⟨hascii, hallowed⟩
    obtain ⟨host, hhost, rest, heq, hrest⟩ := allowedHostAt_iff.mp hallowed
    obtain ⟨u, v, rfl, hu, rfl⟩ := List.map_eq_append_iff.mp heq
    have hplain := delimiter_not_mem hhost hu
    have hbracket : ∀ rest, u ++ v ≠ '[' :: rest := by
      intro rest hbracket
      cases u with
      | nil => exact absurd hu.symm (allowedHosts_ne_nil host hhost)
      | cons d u =>
        obtain rfl := (List.cons.inj hbracket).1
        exact hplain '[' (by decide) List.mem_cons_self
    have hcolon : (u ++ v).takeWhile (· ≠ ':') = u := by
      have hall : ∀ c ∈ u, decide (c ≠ ':') = true := by
        intro c hc
        exact decide_eq_true fun heq => hplain ':' (by decide) (heq ▸ hc)
      rw [List.takeWhile_append_of_pos hall]
      cases v with
      | nil => simp
      | cons e v =>
        have he := hx e (by simp)
        obtain rfl : e = ':' := by
          rcases hrest _ rfl with hfollows | ⟨hnewline, -⟩
          · exact eq_colon_of_follows he hfollows
          · exact absurd hnewline (foldAscii_ne_newline he)
        simp
    rw [hostBefore_of_ne hbracket, hcolon] at hascii ⊢
    exact ⟨host, hhost, by rw [← map_foldAscii_of_ascii hascii, hu]⟩

/-! ## What is stored -/

theorem boundary_of_isSpace (hspace : SpacesApart isSpace) {text : List Char}
    (h : ∀ c ∈ text, isSpace c = true) : Boundary isSpace text := by
  intro c hc
  have hblank := h c (List.mem_of_mem_head? hc)
  simp [linkChar, (hspace c hblank).1, hblank]

/-- White space around a text is no part of its links. -/
theorem authorities_strip (hspace : SpacesApart isSpace) {text a : List Char}
    (ha : a ∈ authorities isSpace (strip isSpace text)) : a ∈ authorities isSpace text := by
  have hboundary : Boundary isSpace ((text.dropWhile isSpace).rtakeWhile isSpace) :=
    boundary_of_isSpace hspace fun c hc => List.mem_rtakeWhile_imp hc
  have hpadded := authorities_append hboundary ha
  rw [strip_eq_rdropWhile, List.rdropWhile_append_rtakeWhile] at hpadded
  exact authorities_suffix (List.dropWhile_suffix isSpace) hpadded

/-- The links of the content are links of the fields as the model gave them. -/
theorem authorities_of_stored {py : PyText} (hspace : SpacesApart py.isSpace) {fields : SopFields}
    {a : List Char} (ha : a ∈ authorities py.isSpace (fields.content py).toList) :
    a ∈ authorities py.isSpace
      (fields.name ++ "\n" ++ fields.description ++ "\n" ++ fields.procedure).toList := by
  have hraw : (fields.name ++ "\n" ++ fields.description ++ "\n" ++ fields.procedure).toList =
      fields.name.toList ++ '\n' :: (fields.description.toList ++ '\n' :: fields.procedure.toList) := by
    simp [String.toList_append]
  rw [hraw]
  rw [SopFields.content, String.toList_ofList] at ha
  simp only [mem_authorities_append_cons linkChar_newline] at ha ⊢
  rcases ha with hname | hdescription | hprocedure
  · exact .inl (authorities_strip hspace hname)
  · exact .inr (.inl (authorities_strip hspace hdescription))
  · exact .inr (.inr (authorities_strip hspace hprocedure))

theorem not_dangerous_of_valid {py : PyText} {sop : Json} {descriptionMax procedureMax : Int}
    {fields : SopFields} (h : validateSop py sop descriptionMax procedureMax = .ok ())
    (hfields : sop.sopFields? = some fields) :
    dangerous py.isSpace
      (fields.name ++ "\n" ++ fields.description ++ "\n" ++ fields.procedure).toList = false := by
  unfold validateSop at h
  split at h
  · split at h
    · rename_i name hname
      split_ifs at h
      split at h
      · rename_i description hdescription
        split_ifs at h
        split at h
        · rename_i procedure hprocedure
          split_ifs at h with hempty hlong hdanger
          simp only [Json.sopFields?, hname, hdescription, hprocedure, Option.some.injEq] at hfields
          rw [← hfields]
          exact Bool.eq_false_iff.mpr hdanger
        · cases h
      · cases h
    · cases h
  · cases h

/-- The content of a valid SOP has whitelisted links only if and only if they are plain. -/
theorem onlyWhitelistedLinks_iff {py : PyText} (hspace : SpacesApart py.isSpace) {sop : Json}
    {descriptionMax procedureMax : Int} {content : String}
    (h : validateSop py sop descriptionMax procedureMax = .ok ())
    (hcontent : formatSopContent py sop = some content) :
    OnlyWhitelistedLinks py.isSpace content.toList ↔ PlainLinks py.isSpace content.toList := by
  obtain ⟨fields, hfields, rfl⟩ := Option.map_eq_some_iff.mp hcontent
  refine forall₂_congr fun a ha => forall_congr' fun hhost => ?_
  have hallowed := allowed_of_not_dangerous hspace (not_dangerous_of_valid h hfields)
    (authorities_of_stored hspace ha)
  have hchars : ∀ c ∈ behindUserInfo a, authorityChar py.isSpace c = true :=
    fun c hc => authorityChar_of_mem ha c (mem_of_mem_behindUserInfo hc)
  rw [hostOf, whitelisted_iff hchars]
  refine and_congr_right fun _ => ?_
  by_cases hat : '@' ∈ a
  · simp [hat]
  · rw [behindUserInfo_of_not_mem hat]
    rcases hallowed with rfl | hallowed
    · exact absurd rfl hhost
    · simp [hallowed]

end

section
variable {V : Type} (deps : MemoryDeps V) (tok : Tokenizer) (settings : ExtractionSettings)
  (sessionKey sessionId : String)

/-- The content that a round of the extraction stores. -/
def storedContent (b : SqliteMemoryBackend V) (s : ExtractedSop) : Option String :=
  (checkedContent deps settings s).filter fun content =>
    !(isDuplicateSop deps tok settings sessionKey b content s.searchedAt).1

/-- A round stores that content as an entry of its own, or stores nothing. -/
theorem extractStep_storedContent (b : SqliteMemoryBackend V) (s : ExtractedSop) :
    extractStep deps tok settings sessionKey sessionId b s =
      match checkedContent deps settings s, storedContent deps tok settings sessionKey b s with
      | some looked, some content =>
        ((isDuplicateSop deps tok settings sessionKey b looked s.searchedAt).2.perform deps sessionKey
          (.store { id := s.id, layer := .l3, type := "auto_sop", content := content
                    sourceSessionId := some sessionId, createdAt := s.storedAt
                    updatedAt := s.storedAt })).2
      | some looked, none => (isDuplicateSop deps tok settings sessionKey b looked s.searchedAt).2
      | none, _ => b := by
  unfold extractStep storedContent
  cases checkedContent deps settings s with
  | none => rfl
  | some content =>
    cases hdup : (isDuplicateSop deps tok settings sessionKey b content s.searchedAt).1 with
    | true => simp [hdup, Option.filter_some]
    | false => simp [hdup, Option.filter_some]

end

/-- All that the loop stores has whitelisted links only, exactly if the links in it are plain. -/
theorem extraction_links_iff {V : Type} (deps : MemoryDeps V) (tok : Tokenizer)
    (settings : ExtractionSettings) (sessionKey sessionId : String) (b : SqliteMemoryBackend V)
    (sops : List ExtractedSop) (hspace : SpacesApart deps.py.isSpace) :
    Along (extractStep deps tok settings sessionKey sessionId)
        (fun b s => ∀ content ∈ storedContent deps tok settings sessionKey b s,
          OnlyWhitelistedLinks deps.py.isSpace content.toList)
        b (sliceTo settings.maxSopsPerExtraction sops) ↔
      Along (extractStep deps tok settings sessionKey sessionId)
        (fun b s => ∀ content ∈ storedContent deps tok settings sessionKey b s,
          PlainLinks deps.py.isSpace content.toList)
        b (sliceTo settings.maxSopsPerExtraction sops) := by
  refine along_iff_of_invariant (I := fun _ => True) ?_ (fun _ _ _ _ => trivial) trivial
  intro b s _
  refine forall₂_congr fun content hcontent => ?_
  obtain ⟨hchecked, -⟩ := Option.filter_eq_some_iff.mp hcontent
  unfold checkedContent at hchecked
  split at hchecked
  · cases hchecked
  · rename_i hvalid
    exact onlyWhitelistedLinks_iff hspace hvalid hchecked

theorem spacesApart_ascii : SpacesApart PyText.ascii.isSpace := by
  have hall : ∀ n : Fin 33, uriChar (Char.ofNat n) = false ∧ foldAscii (Char.ofNat n) = Char.ofNat n := by
    decide
  intro c hc
  have hle : c.toNat ≤ 32 := by simpa [PyText.ascii] using hc
  have hc' := hall ⟨c.toNat, by omega⟩
  rwa [Char.ofNat_toNat] at hc'

/-- A SOP with a link that has user info in front of its host. -/
def userInfoSop : Json := sopOf "fetch-docs" "See https://github.com:x@evil.com/." "Read it."

/-- The filter takes the user name for the host. -/
theorem userInfoSop_not_whitelisted :
    ¬ ∀ (deps : MemoryDeps Unit) (tok : Tokenizer) (settings : ExtractionSettings)
      (sessionKey sessionId : String) (b : SqliteMemoryBackend Unit) (sops : List ExtractedSop),
      SpacesApart deps.py.isSpace →
      Along (extractStep deps tok settings sessionKey sessionId)
        (fun b s => ∀ content ∈ storedContent deps tok settings sessionKey b s,
          OnlyWhitelistedLinks deps.py.isSpace content.toList)
        b (sliceTo settings.maxSopsPerExtraction sops) := by
  intro h
  have hrun := h Database.likeDeps charTokenizer { dedupOverlapThreshold := 3 / 5 } "k" "s" knownSopBackend
    [⟨userInfoSop, 5, "q", 5⟩] spacesApart_ascii
  have hlinks := hrun.1 "fetch-docs\nSee https://github.com:x@evil.com/.\nRead it." (by decide +kernel)
    "github.com:x@evil.com".toList (by decide +kernel)
  revert hlinks
  decide +kernel

/-- A SOP with a link to a whitelisted host. -/
theorem oneLink_whitelisted_iff :
    Along (extractStep Database.likeDeps charTokenizer { dedupOverlapThreshold := 3 / 5 } "k" "s")
        (fun b s => ∀ content ∈ storedContent Database.likeDeps charTokenizer
            { dedupOverlapThreshold := 3 / 5 } "k" b s,
          OnlyWhitelistedLinks PyText.ascii.isSpace content.toList)
        knownSopBackend [⟨sopOf "fetch-docs" "See https://GitHub.com/python." "Read it.", 5, "q", 5⟩] ↔
      Along (extractStep Database.likeDeps charTokenizer { dedupOverlapThreshold := 3 / 5 } "k" "s")
        (fun b s => ∀ content ∈ storedContent Database.likeDeps charTokenizer
            { dedupOverlapThreshold := 3 / 5 } "k" b s,
          PlainLinks PyText.ascii.isSpace content.toList)
        knownSopBackend [⟨sopOf "fetch-docs" "See https://GitHub.com/python." "Read it.", 5, "q", 5⟩] :=
  extraction_links_iff Database.likeDeps charTokenizer { dedupOverlapThreshold := 3 / 5 } "k" "s"
    knownSopBackend [⟨sopOf "fetch-docs" "See https://GitHub.com/python." "Read it.", 5, "q", 5⟩]
    spacesApart_ascii

end PyClaw
