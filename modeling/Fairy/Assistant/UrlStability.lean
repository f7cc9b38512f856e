import Fairy.Assistant.EvidenceFields

namespace Fairy.Assistant

open Fairy.Lib
open Url (partition)

section Chars

theorem toLower_cases (c : Char) :
    c.toLower = c ∨ 65 ≤ c.toNat ∧ c.toNat ≤ 90 ∧ c.toLower.toNat = c.toNat + 32 := by
  unfold Char.toLower
  split
  · rename_i h
    obtain ⟨hlow, hhigh⟩ := h
    have hlow' : 65 ≤ c.toNat := hlow
    have hhigh' : c.toNat ≤ 90 := hhigh
    refine .inr ⟨hlow', hhigh', ?_⟩
    change (c.val + 32).toNat = c.val.toNat + 32
    have hval : c.val.toNat ≤ 90 := hhigh'
    rw [UInt32.toNat_add]
    change (c.val.toNat + 32) % 4294967296 = _
    omega
  · exact .inl rfl

theorem toLower_toLower (c : Char) : c.toLower.toLower = c.toLower := by
  obtain h | ⟨_, _, h⟩ := toLower_cases c
  · rw [h, h]
  · obtain h' | ⟨_, hhigh, _⟩ := toLower_cases c.toLower
    · exact h'
    · omega

theorem toLower_delimiter {c d : Char} (hd : d ∈ delimiters) (h : c.toLower = d) : c = d := by
  obtain h' | ⟨hlow, _, h'⟩ := toLower_cases c
  · exact h'.symm.trans h
  · have hall : delimiters.all fun d => d.toNat < 97 := by decide
    have hlt := of_decide_eq_true (List.all_eq_true.mp hall d hd)
    rw [← h] at hlt
    omega

end Chars

/-- A text of ASCII characters in lower case. -/
structure Lowered (l : List Char) : Prop where
  ascii : IsAscii l
  lower : ∀ c ∈ l, c.toLower = c

namespace Lowered

variable {k : UrlCodec} {l m : List Char}

theorem map_lower (h : Lowered l) : l.map Char.toLower = l :=
  (List.map_congr_left h.lower).trans (List.map_id' l)

theorem sublist (h : Lowered l) (hm : m.Sublist l) : Lowered m :=
  ⟨fun c hc => h.ascii c (hm.subset hc), fun c hc => h.lower c (hm.subset hc)⟩

theorem map_toLower (h : IsAscii l) : Lowered (l.map Char.toLower) := by
  refine ⟨fun c hc => ?_, fun c hc => ?_⟩ <;> obtain ⟨d, hd, rfl⟩ := List.mem_map.mp hc
  · obtain he | ⟨_, hhigh, he⟩ := toLower_cases d
    · rw [he]
      exact h d hd
    · omega
  · exact toLower_toLower d

theorem append (h : Lowered l) (h' : Lowered m) : Lowered (l ++ m) :=
  ⟨fun c hc => (List.mem_append.mp hc).elim (h.ascii c) (h'.ascii c),
    fun c hc => (List.mem_append.mp hc).elim (h.lower c) (h'.lower c)⟩

theorem hostname (hk : k.Lawful) (h : Lowered l) : k.hostname l = l := by
  have hprefix := Url.partition_fst_sublist (p := (· = '%')) (l := l)
  have hfirst := h.sublist hprefix.sublist
  rw [UrlCodec.hostname, hk.lower_ascii _ hfirst.ascii, hfirst.map_lower]
  exact List.prefix_iff_eq_append.mp hprefix

theorem casefold (hk : k.Lawful) (h : Lowered l) : k.casefold l = l := by
  rw [hk.casefold_ascii l h.ascii, h.map_lower]

/-- Digits after a colon are of this kind. -/
theorem port (n : Nat) : Lowered (':' :: Nat.toDigits 10 n) := by
  have hdigit : ∀ c ∈ Nat.toDigits 10 n, 48 ≤ c.toNat ∧ c.toNat ≤ 57 := by
    intro c hc
    have hc := Nat.isDigit_of_mem_toDigits (by omega) (by omega) hc
    simp only [Char.isDigit, Bool.and_eq_true, decide_eq_true_eq] at hc
    exact hc
  refine ⟨fun c hc => ?_, fun c hc => ?_⟩ <;> obtain rfl | hc := List.mem_cons.mp hc
  · decide
  · have := hdigit c hc
    omega
  · rfl
  · have := hdigit c hc
    obtain h | ⟨hlow, _⟩ := toLower_cases c
    · exact h
    · omega

end Lowered

/-- What `_safe_url` makes of a network location. -/
structure ReadsAs (k : UrlCodec) (netloc result : List Char) : Prop where
  brackets : Url.bracketsOk k.addressOk netloc = true
  checked : k.netlocOk netloc = true
  nonempty : (Url.hostPort netloc).1 ≠ []
  user : (Url.userinfo netloc).1 = [] ∧ (Url.userinfo netloc).2 = []
  read : ∃ a port, k.idna (k.hostname (Url.hostPort netloc).1) = some a ∧
    explicitPort (Url.hostPort netloc).2 = some port ∧ result = authority (k.casefold a) port

theorem elim_ok {α : Type} {x : Option α} {e : String} {a : α} :
    x.elim (Except.error e) .ok = .ok a ↔ x = some a := by
  cases x with
  | none => exact iff_of_false (fun h => by cases h) (fun h => by cases h)
  | some b =>
    refine ⟨fun h => ?_, fun h => ?_⟩
    · cases h
      rfl
    · cases h
      rfl

theorem safeUrl_ok_iff {k : UrlCodec} {value v : String} :
    safeUrl k value = .ok v ↔ ∃ result, let parsed := Url.urlsplit (Text.strip value)
      parsed.scheme = "https".toList ∧ ReadsAs k parsed.netloc result ∧
        v = String.ofList (unsplit "https".toList result
          (if parsed.path = [] then ['/'] else parsed.path)) ∧
        (unsplit "https".toList result
          (if parsed.path = [] then ['/'] else parsed.path)).length ≤ 2048 := by
  simp only [safeUrl, ↓check_bind_ok_iff]
  constructor
  · rintro ⟨hnet, hurl, h⟩
    obtain ⟨a, ha, h⟩ := bind_ok h
    obtain ⟨port, hport, h⟩ := bind_ok h
    obtain ⟨hlength, h⟩ := check_bind_ok_iff.mp h
    cases pure_ok h
    push Not at hnet hurl
    exact ⟨_, hurl.1, ⟨by simpa using hnet.1, by simpa using hnet.2, hurl.2.1, hurl.2.2, a, port,
      elim_ok.mp ha, elim_ok.mp hport, rfl⟩, rfl, Nat.not_lt.mp hlength⟩
  · rintro ⟨result, hscheme, ⟨hbrackets, hchecked, hnonempty, huser, a, port, ha, hport, rfl⟩, rfl,
      hlength⟩
    refine ⟨?_, ?_, ?_⟩
    · simp [hbrackets, hchecked]
    · simp [hscheme, hnonempty, huser]
    · rw [elim_ok.mpr ha, ok_bind, elim_ok.mpr hport, ok_bind]
      exact check_bind_ok_iff.mpr ⟨Nat.not_lt.mpr hlength, rfl⟩

/-- A host and a port that are read back as they are. The second case is that of an address between
brackets whose last part looks like a port. -/
def StableAuthority (k : UrlCodec) (host : List Char) (port : Option Nat) : Prop :=
  '[' ∉ host ∧ ']' ∉ host ∧ (':' ∉ host ∧ (k.idna host).isSome ∨
    port = none ∧ ∃ name n, host = name ++ ':' :: Nat.toDigits 10 n ∧ ':' ∉ name ∧ name ≠ [] ∧
      n ≤ 65535 ∧ n ≠ 443 ∧ (k.idna name).isSome)

section Authority

variable {k : UrlCodec} (hk : k.Lawful) {host : List Char} {port : Option Nat}
  (hhost : Lowered host)

theorem mem_authority {c : Char} (h : c ∈ authority host port) :
    c ∈ host ∨ c ∈ ':' :: Nat.toDigits 10 (port.getD 0) := by
  cases port with
  | none => exact .inl h
  | some n => exact List.mem_append.mp h

theorem not_mem_authority {c : Char} (h : c ∉ host) (hcolon : c ≠ ':') (hdigit : c.isDigit = false) :
    c ∉ authority host port := by
  intro hmem
  obtain hmem | hmem := mem_authority hmem
  · exact h hmem
  · obtain he | hmem := List.mem_cons.mp hmem
    · exact hcolon he
    · rw [Nat.isDigit_of_mem_toDigits (by omega) (by omega) hmem] at hdigit
      cases hdigit

include hhost in
theorem lowered_authority : Lowered (authority host port) := by
  cases port with
  | none => exact hhost
  | some n => exact hhost.append (.port n)

theorem explicitPort_digits {n : Nat} (hn : n ≤ 65535) (h : n ≠ 443) :
    explicitPort (Nat.toDigits 10 n) = some (some n) := by
  rw [explicitPort, if_neg Nat.toDigits_ne_nil, Url.readPort_digits hn]
  simp [h]

theorem explicitPort_some {text : List Char} {n : Nat} (h : explicitPort text = some (some n)) :
    n ≤ 65535 ∧ n ≠ 443 := by
  unfold explicitPort at h
  split at h
  · cases h
  · cases hread : Url.readPort text with
    | none =>
      rw [hread] at h
      cases h
    | some m =>
      simp only [hread, Option.map_some, Option.some.injEq] at h
      split at h
      · cases h
      · rename_i hm
        cases h
        exact ⟨(Url.readPort_some hread).2, hm⟩

include hk

theorem idna_lowered {l : List Char} (h : Lowered l) (hsome : (k.idna l).isSome) :
    k.idna (k.hostname l) = some l := by
  rw [h.hostname hk]
  obtain ⟨a, ha⟩ := Option.isSome_iff_exists.mp hsome
  rw [ha, hk.idna_of_ascii l a h.ascii ha]

theorem idna_lowered_eq {l a : List Char} (h : Lowered l) (ha : k.idna (k.hostname l) = some a) :
    a = l ∧ (k.idna l).isSome := by
  rw [h.hostname hk] at ha
  exact ⟨hk.idna_of_ascii l a h.ascii ha, by rw [ha]; rfl⟩

include hhost

theorem readsAs_of_stable (hne : host ≠ []) (hat : '@' ∉ host)
    (hport : ∀ n, port = some n → n ≤ 65535 ∧ n ≠ 443) (h : StableAuthority k host port) :
    ReadsAs k (authority host port) (authority host port) := by
  obtain ⟨hopen, hclose, hread⟩ := h
  have hlowered : Lowered (authority host port) := lowered_authority hhost
  have hopen' : '[' ∉ authority host port := not_mem_authority hopen (by decide) (by decide)
  have hclose' : ']' ∉ authority host port := not_mem_authority hclose (by decide) (by decide)
  have hat' : '@' ∉ authority host port := not_mem_authority hat (by decide) (by decide)
  have hbrackets : Url.bracketsOk k.addressOk (authority host port) = true :=
    Url.bracketsOk_of_not_mem hopen' hclose'
  have huser := Url.userinfo_of_not_mem hat'
  have hchecked := hk.netloc_ascii _ hlowered.ascii
  obtain ⟨hcolon, hidna⟩ | ⟨rfl, name, n, rfl, hcolon, hname, hn, hdefault, hidna⟩ := hread
  · cases port with
    | none =>
      have hhostPort : Url.hostPort host = (host, []) := Url.hostPort_of_not_mem hat hopen hcolon
      refine ⟨hbrackets, hchecked, ?_, ⟨by rw [huser], by rw [huser]⟩, host, none, ?_, ?_, ?_⟩
      · rw [authority, hhostPort]
        exact hne
      · rw [authority, hhostPort]
        exact idna_lowered hk hhost hidna
      · rw [authority, hhostPort]
        rfl
      · rw [hhost.casefold hk]
    | some n =>
      have hhostPort : Url.hostPort (authority host (some n)) = (host, Nat.toDigits 10 n) :=
        Url.hostPort_append hat' hopen' hcolon
      refine ⟨hbrackets, hchecked, ?_, ⟨by rw [huser], by rw [huser]⟩, host, some n, ?_, ?_, ?_⟩
      · rw [hhostPort]
        exact hne
      · rw [hhostPort]
        exact idna_lowered hk hhost hidna
      · rw [hhostPort]
        exact explicitPort_digits (hport n rfl).1 (hport n rfl).2
      · rw [hhost.casefold hk]
  · have hhostPort : Url.hostPort (authority (name ++ ':' :: Nat.toDigits 10 n) none) =
        (name, Nat.toDigits 10 n) := Url.hostPort_append hat hopen hcolon
    have hlow : Lowered name := hhost.sublist (List.sublist_append_left _ _)
    refine ⟨hbrackets, hchecked, ?_, ⟨by rw [huser], by rw [huser]⟩, name, some n, ?_, ?_, ?_⟩
    · rw [hhostPort]
      exact hname
    · rw [hhostPort]
      exact idna_lowered hk hlow hidna
    · rw [hhostPort]
      exact explicitPort_digits hn hdefault
    · rw [hlow.casefold hk]
      rfl

/-- An address between brackets is read without them. -/
theorem not_readsAs_of_bracket (hat : '@' ∉ host) (hbracket : '[' ∈ host ∨ ']' ∈ host) :
    ¬ ReadsAs k (authority host port) (authority host port) := by
  intro h
  have hlowered : Lowered (authority host port) := lowered_authority hhost
  have hat' : '@' ∉ authority host port := not_mem_authority hat (by decide) (by decide)
  have hmem : ∀ c ∈ host, c ∈ authority host port := by
    intro c hc
    cases port with
    | none => exact hc
    | some n => exact List.mem_append_left _ hc
  obtain ⟨hbrackets, _, hnonempty, _, a, port', ha, _, hsame⟩ := h
  generalize authority host port = A at hlowered hat' hmem hbrackets hnonempty ha hsame
  have hboth : (A.contains '[' && A.contains ']') = true := by
    by_contra hnot
    rw [Url.bracketsOk, if_neg hnot] at hbrackets
    have hnone : '[' ∉ A ∧ ']' ∉ A := by simpa using hbrackets
    exact hbracket.elim (fun hc => hnone.1 (hmem _ hc)) fun hc => hnone.2 (hmem _ hc)
  rw [Url.bracketsOk, if_pos hboth, Url.afterUser_of_not_mem hat'] at hbrackets
  rw [Url.hostPort, Url.afterUser_of_not_mem hat'] at hnonempty ha
  cases hpart : partition (· = '[') A with
  | mk before rest =>
    cases rest with
    | none =>
      have hopen : '[' ∈ A := by simpa using (Bool.and_eq_true_iff.mp hboth).1
      have hnone := Url.partition_none (p := (· = '[')) (l := A) (by rw [hpart]) _ hopen
      exact absurd hnone (by decide)
    | some bracketed =>
      rw [hpart] at hbrackets hnonempty ha
      simp only [Bool.and_eq_true, List.isEmpty_iff] at hbrackets
      obtain ⟨⟨hbefore, _⟩, haddress⟩ := hbrackets
      obtain ⟨c, hc, hA⟩ := Url.partition_some hpart
      rw [hbefore, List.nil_append, of_decide_eq_true hc] at hA
      have hinner : Lowered (partition (· = ']') bracketed).1 := by
        refine hlowered.sublist ?_
        rw [hA]
        exact Url.partition_fst_sublist.sublist.trans (List.sublist_cons_self _ _)
      obtain ⟨rfl, _⟩ := idna_lowered_eq hk hinner ha
      rw [hinner.casefold hk] at hsame
      have hhead : A.head? = (partition (· = ']') bracketed).1.head? := by
        conv_lhs => rw [hsame]
        cases port' with
        | none => rfl
        | some n => exact List.head?_append_of_ne_nil _ hnonempty
      rw [hA, List.head?_cons] at hhead
      exact hk.address_head _ haddress hhead.symm

/-- What is read back as it is has a host and a port of this kind. -/
theorem stable_of_readsAs (hat : '@' ∉ host)
    (h : ReadsAs k (authority host port) (authority host port)) : StableAuthority k host port := by
  have hbracket : ¬ ('[' ∈ host ∨ ']' ∈ host) := fun hmem =>
    not_readsAs_of_bracket hk hhost hat hmem h
  rw [not_or] at hbracket
  have hat' : '@' ∉ authority host port := not_mem_authority hat (by decide) (by decide)
  have hopen' : '[' ∉ authority host port := not_mem_authority hbracket.1 (by decide) (by decide)
  refine ⟨hbracket.1, hbracket.2, ?_⟩
  obtain ⟨_, _, hnonempty, _, a, port', ha, hport', hsame⟩ := h
  by_cases hcolon : ':' ∈ host
  · obtain ⟨name, tail, rfl, hname⟩ := List.eq_append_cons_of_mem hcolon
    have hlow : Lowered name := hhost.sublist (List.sublist_append_left _ _)
    cases port with
    | none =>
      rw [authority] at hat' hopen'
      have hhostPort := Url.hostPort_append hat' hopen' hname
      rw [authority, hhostPort] at hnonempty ha hport'
      rw [authority] at hsame
      obtain ⟨rfl, hidna⟩ := idna_lowered_eq hk hlow ha
      rw [hlow.casefold hk] at hsame
      cases port' with
      | none =>
        have hlen := congrArg List.length hsame
        simp [authority] at hlen
      | some n =>
        obtain ⟨hn, hdefault⟩ := explicitPort_some hport'
        exact .inr ⟨rfl, a, n, hsame, hname, hnonempty, hn, hdefault, hidna⟩
    | some n =>
      have hA : authority (name ++ ':' :: tail) (some n) =
          name ++ ':' :: (tail ++ ':' :: Nat.toDigits 10 n) := by simp [authority]
      rw [hA] at hat' hopen'
      rw [hA, Url.hostPort_append hat' hopen' hname] at hport'
      -- a colon in the port cannot be read
      unfold explicitPort at hport'
      rw [if_neg (by simp)] at hport'
      have hread : Url.readPort (tail ++ ':' :: Nat.toDigits 10 n) = none := by
        rw [Url.readPort, if_neg]
        rintro ⟨hdigits, _⟩
        have hbad := List.all_eq_true.mp hdigits ':' (by simp)
        exact absurd hbad (by decide)
      rw [hread] at hport'
      cases hport'
  · refine .inl ⟨hcolon, ?_⟩
    have hhostPort : (Url.hostPort (authority host port)).1 = host := by
      cases port with
      | none => rw [authority, Url.hostPort_of_not_mem hat hbracket.1 hcolon]
      | some n =>
        rw [authority] at hat' hopen' ⊢
        rw [Url.hostPort_append hat' hopen' hcolon]
    rw [hhostPort] at ha
    exact (idna_lowered_eq hk hhost ha).2

end Authority

namespace ReadsAs

variable {k : UrlCodec} {netloc result : List Char} {c : Char}

theorem host_ne_nil (hk : k.Lawful) {a : List Char} (hne : (Url.hostPort netloc).1 ≠ [])
    (ha : k.idna (k.hostname (Url.hostPort netloc).1) = some a) : k.casefold a ≠ [] := by
  have hname : k.hostname (Url.hostPort netloc).1 ≠ [] := by
    rw [UrlCodec.hostname]
    by_cases hfirst : (partition (· = '%') (Url.hostPort netloc).1).1 = []
    · rw [hfirst]
      simp [hne]
    · simp [hk.lower_nonempty _ hfirst]
  rw [hk.casefold_ascii _ (hk.idna_is_ascii _ _ ha)]
  simpa using hk.idna_nonempty _ _ hname ha

theorem ne_nil (hk : k.Lawful) (h : ReadsAs k netloc result) : result ≠ [] := by
  obtain ⟨a, port, ha, _, rfl⟩ := h.read
  have hne := host_ne_nil hk h.nonempty ha
  cases port with
  | none => exact hne
  | some n => simp [authority]

/-- No delimiter comes in but a colon. -/
theorem delimiter (hk : k.Lawful) (h : ReadsAs k netloc result) (hc : c ∈ delimiters)
    (hcolon : c ≠ ':') (hmem : c ∈ result) : c ∈ netloc ∧ c ≠ '@' := by
  obtain ⟨a, port, ha, _, rfl⟩ := h.read
  obtain hmem | hmem := mem_authority hmem
  · rw [hk.casefold_ascii _ (hk.idna_is_ascii _ _ ha)] at hmem
    obtain ⟨d, hd, hdc⟩ := List.mem_map.mp hmem
    obtain rfl := toLower_delimiter hc hdc
    exact Url.mem_of_mem_host (hk.delimiters_kept netloc a h.checked ha d hc hd)
  · obtain he | hmem := List.mem_cons.mp hmem
    · exact absurd he hcolon
    · have hdigit := Nat.isDigit_of_mem_toDigits (by omega) (by omega) hmem
      have hall : delimiters.all fun c => !c.isDigit := by decide
      have hnot := List.all_eq_true.mp hall c hc
      rw [hdigit] at hnot
      cases hnot

end ReadsAs

/-- The path does not end in a blank, and the host and the port are read back as they are. -/
structure StableUrl (k : UrlCodec) (value : String) : Prop where
  path : ∀ c ∈ (Url.urlsplit (Text.strip value)).path.getLast?, Text.isSpace c = false
  host : ∀ a port,
    k.idna (k.hostname (Url.hostPort (Url.urlsplit (Text.strip value)).netloc).1) = some a →
      explicitPort (Url.hostPort (Url.urlsplit (Text.strip value)).netloc).2 = some port →
        StableAuthority k (k.casefold a) port

theorem unsplit_of_slash {scheme netloc path : List Char} (hnetloc : netloc ≠ []) :
    unsplit scheme netloc ('/' :: path) =
      scheme ++ ':' :: '/' :: '/' :: (netloc ++ '/' :: path) := by
  simp [unsplit, hnetloc]

/-- What a URL that has been put together is stripped and split into. -/
theorem urlsplit_unsplit {netloc path : List Char} (hnetloc : netloc ≠ [])
    (hends : ∀ c ∈ netloc, c ∉ ['/', '?', '#']) (hbreaks : ∀ c ∈ netloc, c ∉ ['\t', '\r', '\n'])
    (hpath : ∀ c ∈ path, c ∉ ['?', '#'] ∧ c ∉ ['\t', '\r', '\n']) :
    ∃ tail, '/' :: tail = Text.rstripChars ('/' :: path) ∧
      Url.urlsplit (Text.strip (String.ofList (unsplit "https".toList netloc ('/' :: path)))) =
        ⟨"https".toList, netloc, '/' :: tail, [], []⟩ := by
  have hne := Text.rstripChars_ne_nil (c := '/') (l := '/' :: path) List.mem_cons_self (by decide)
  obtain ⟨rest, hrest⟩ := Text.rstripChars_prefix ('/' :: path)
  cases hstrip : Text.rstripChars ('/' :: path) with
  | nil => exact absurd hstrip hne
  | cons c tail =>
    rw [hstrip] at hrest
    obtain ⟨rfl, htail⟩ := List.cons.inj hrest
    refine ⟨tail, rfl, ?_⟩
    have hsub : ∀ c ∈ tail, c ∈ path := fun c hc => htail ▸ List.mem_append_left _ hc
    have htext : Text.strip (String.ofList (unsplit "https".toList netloc ('/' :: path))) =
        String.ofList ('h' :: "ttps".toList ++ ':' :: '/' :: '/' :: (netloc ++ '/' :: tail)) := by
      have hsplit : unsplit "https".toList netloc ('/' :: path) =
          ('h' :: "ttps".toList ++ ':' :: '/' :: '/' :: netloc) ++ '/' :: path := by
        rw [unsplit_of_slash hnetloc]
        simp
      rw [Text.strip, String.toList_ofList, hsplit, List.cons_append, List.cons_append,
        Text.stripChars_cons (by decide), ← List.cons_append, ← List.cons_append,
        Text.rstripChars_append hne, hstrip]
      simp
    rw [htext]
    refine Url.urlsplit_join (by decide) (fun c hc => ?_) hends
      (fun c hc => (hpath c (hsub c hc)).1) (Url.clean_of_first (by decide) fun c hc => ?_)
    · have hall : ('h' :: "ttps".toList).all fun c =>
          Url.isSchemeChar c && decide (c ≠ ':') && decide (c.toLower = c) := by decide
      have hc := List.all_eq_true.mp hall c hc
      simp only [Bool.and_eq_true, decide_eq_true_eq] at hc
      exact ⟨hc.1.1, hc.1.2, hc.2⟩
    · have hfront : ('h' :: "ttps".toList ++ [':', '/', '/']).all fun c =>
          decide (c ∉ ['\t', '\r', '\n']) := by decide
      have hcases : c ∈ 'h' :: "ttps".toList ++ [':', '/', '/'] ∨ c ∈ netloc ∨ c = '/' ∨
          c ∈ tail := by
        change c ∈ ('h' :: "ttps".toList) ++ (':' :: '/' :: '/' :: (netloc ++ '/' :: tail)) at hc
        simp only [List.mem_append, List.mem_cons, List.not_mem_nil, or_false] at hc ⊢
        tauto
      obtain hc | hc | rfl | hc := hcases
      · exact of_decide_eq_true (List.all_eq_true.mp hfront c hc)
      · exact hbreaks c hc
      · decide
      · exact (hpath c (hsub c hc)).2

/-- `_safe_url` accepts its own output and leaves it as it is just for a stable URL. -/
theorem safeUrl_idem_iff {k : UrlCodec} (hk : k.Lawful) {value v : String}
    (h : safeUrl k value = .ok v) : safeUrl k v = .ok v ↔ StableUrl k value := by
  obtain ⟨result, hscheme, hreads, rfl, hlength⟩ := safeUrl_ok_iff.mp h
  have hpathEnds : ∀ c ∈ (Url.urlsplit (Text.strip value)).path, c ∉ ['?', '#'] := fun _ hc =>
    Url.mem_path_ends hc
  have hpathBreaks : ∀ c ∈ (Url.urlsplit (Text.strip value)).path, c ∉ ['\t', '\r', '\n'] :=
    fun _ hc => Url.mem_path hc
  have hnetlocMem : ∀ c ∈ (Url.urlsplit (Text.strip value)).netloc,
      c ∉ ['/', '?', '#'] ∧ c ∉ ['\t', '\r', '\n'] := fun _ hc => Url.mem_netloc hc
  have hpathHead : (Url.urlsplit (Text.strip value)).netloc ≠ [] →
      (Url.urlsplit (Text.strip value)).path = [] ∨
        (Url.urlsplit (Text.strip value)).path.head? = some '/' := Url.path_head
  have hstable : StableUrl k value ↔
      (∀ c ∈ (Url.urlsplit (Text.strip value)).path.getLast?, Text.isSpace c = false) ∧
      ∀ a port,
        k.idna (k.hostname (Url.hostPort (Url.urlsplit (Text.strip value)).netloc).1) = some a →
        explicitPort (Url.hostPort (Url.urlsplit (Text.strip value)).netloc).2 = some port →
        StableAuthority k (k.casefold a) port := ⟨fun h => ⟨h.1, h.2⟩, fun h => ⟨h.1, h.2⟩⟩
  rw [hstable]
  generalize Url.urlsplit (Text.strip value) = parsed at *
  obtain ⟨a, port, ha, hport, hresult⟩ := hreads.read
  have hlow : Lowered (k.casefold a) := by
    rw [hk.casefold_ascii a (hk.idna_is_ascii _ _ ha)]
    exact Lowered.map_toLower (hk.idna_is_ascii _ _ ha)
  have hnetloc : parsed.netloc ≠ [] := by
    obtain ⟨c, hc⟩ := List.exists_mem_of_ne_nil _ hreads.nonempty
    exact List.ne_nil_of_mem (Url.mem_of_mem_host hc).1
  have hfree : ∀ c ∈ result, c ∉ ['/', '?', '#'] ∧ c ∉ ['\t', '\r', '\n'] ∧ c ≠ '@' := by
    intro c hc
    have hkept := fun hd hcolon => hreads.delimiter hk (c := c) hd hcolon hc
    refine ⟨fun hd => ?_, fun hd => ?_, ?_⟩
    · have hall : ['/', '?', '#'].all fun c => decide (c ∈ delimiters) && decide (c ≠ ':') := by
        decide
      have hd' := List.all_eq_true.mp hall c hd
      simp only [Bool.and_eq_true, decide_eq_true_eq] at hd'
      exact (hnetlocMem c (hkept hd'.1 hd'.2).1).1 hd
    · have hall : ['\t', '\r', '\n'].all fun c => decide (c ∈ delimiters) && decide (c ≠ ':') := by
        decide
      have hd' := List.all_eq_true.mp hall c hd
      simp only [Bool.and_eq_true, decide_eq_true_eq] at hd'
      exact (hnetlocMem c (hkept hd'.1 hd'.2).1).2 hd
    · rintro rfl
      exact (hkept (by decide) (by decide)).2 rfl
  obtain ⟨path, hpath⟩ : ∃ path, (if parsed.path = [] then ['/'] else parsed.path) = '/' :: path := by
    obtain hnil | hhead := hpathHead hnetloc
    · exact ⟨[], if_pos hnil⟩
    · cases hparsed : parsed.path with
      | nil => exact ⟨[], rfl⟩
      | cons c tail =>
        rw [hparsed] at hhead
        cases hhead
        exact ⟨tail, rfl⟩
  have hpathMem : ∀ c ∈ path, c ∈ parsed.path := by
    intro c hc
    by_cases hnil : parsed.path = []
    · rw [if_pos hnil] at hpath
      rw [← (List.cons.inj hpath).2] at hc
      exact absurd hc List.not_mem_nil
    · rw [if_neg hnil] at hpath
      rw [hpath]
      exact List.mem_cons_of_mem _ hc
  have hlast : (∀ c ∈ parsed.path.getLast?, Text.isSpace c = false) ↔
      Text.rstripChars ('/' :: path) = '/' :: path := by
    rw [Text.rstripChars_eq_self_iff]
    by_cases hnil : parsed.path = []
    · rw [if_pos hnil] at hpath
      rw [← hpath, hnil]
      simp
      decide
    · rw [if_neg hnil] at hpath
      rw [hpath]
  have hne := hreads.ne_nil hk
  obtain ⟨tail, htail, hsplit⟩ := urlsplit_unsplit hne (fun c hc => (hfree c hc).1)
    (fun c hc => (hfree c hc).2.1)
    fun c hc => ⟨hpathEnds c (hpathMem c hc), hpathBreaks c (hpathMem c hc)⟩
  rw [hpath] at hlength ⊢
  have hhost : '@' ∉ k.casefold a := by
    intro hat
    refine (hfree '@' ?_).2.2 rfl
    rw [hresult]
    cases port with
    | none => exact hat
    | some n => exact List.mem_append_left _ hat
  rw [safeUrl_ok_iff, hsplit, hlast, ← htail]
  constructor
  · rintro ⟨result', _, hreads', htext, _⟩
    have hne' := hreads'.ne_nil hk
    have hslash' : ∀ c ∈ result', decide (c = '/') = false := by
      intro c hc
      refine decide_eq_false fun he => ?_
      subst he
      exact (hfree _ (hreads'.delimiter hk (by decide) (by decide) hc).1).1 (by decide)
    have hslash : ∀ c ∈ result, decide (c = '/') = false := by
      intro c hc
      refine decide_eq_false fun he => ?_
      subst he
      exact (hfree _ hc).1 (by decide)
    have hjoin : result ++ '/' :: path = result' ++ '/' :: tail := by
      rw [if_neg (List.cons_ne_nil _ _), unsplit_of_slash hne, unsplit_of_slash hne'] at htext
      have htext := String.ofList_injective htext
      simpa using htext
    have hparts := congrArg (partition fun c => decide (c = '/')) hjoin
    rw [Url.partition_append hslash (by decide), Url.partition_append hslash' (by decide)] at hparts
    obtain ⟨rfl, htail'⟩ := Prod.mk.inj hparts
    cases htail'
    refine ⟨rfl, fun a' port' ha' hport' => ?_⟩
    cases ha.symm.trans ha'
    cases hport.symm.trans hport'
    exact stable_of_readsAs hk hlow hhost (hresult ▸ hreads')
  · rintro ⟨hsame, hauthority⟩
    obtain rfl := (List.cons.inj hsame).2
    refine ⟨result, rfl, ?_, ?_, ?_⟩
    · rw [hresult]
      exact readsAs_of_stable hk hlow (ReadsAs.host_ne_nil hk hreads.nonempty ha) hhost
        (fun n hn => explicitPort_some (hn ▸ hport)) (hauthority a port ha hport)
    · rfl
    · exact hlength

end Fairy.Assistant
