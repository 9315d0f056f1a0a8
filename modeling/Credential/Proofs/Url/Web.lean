import Credential.Proofs.Url.Host
import Credential.Proofs.Url.Path
/-!
# Credential.Proofs.Url.Web — web addresses are read again part by part

A web address that was read has parts of a certain form (`IsReadWeb`): what is escaped is escaped once,
the host is one that hosts are read as, the port is not the usual one. So the text of the name, password,
host and port is read again as these (`parseAuthority_authorityChars`), whatever path comes behind it. What
is written behind such an address and a path leads on from there (`parse_below`).
-/

namespace Credential.Url

/-! ## How web addresses are read -/

/-- The schemes of web pages. -/
def IsWeb (scheme : String) : Prop := scheme = "http" ∨ scheme = "https"

theorem IsWeb.special {scheme : String} (h : IsWeb scheme) : isSpecial scheme = true := by
  rcases h with rfl | rfl <;> rfl

theorem IsWeb.not_file {scheme : String} (h : IsWeb scheme) : (scheme == "file") = false := by
  rcases h with rfl | rfl <;> rfl

/-- What ends the part between the double slash and the path. -/
def endsAuthority (c : Char) : Bool := c = '/' || endsPath c || c = '\\'

/-- The port behind a host. -/
def readPort (scheme : String) : List Char → Except UrlError (Option Nat)
  | [] => .ok none
  | _ :: digits => parsePort scheme digits

theorem of_parseHost {scheme : String} (hweb : IsWeb scheme) {cs : List Char} {host? : Option Host}
    (h : parseHost scheme cs = .ok host?) :
    cs ≠ [] ∧ ∃ host, Host.parse cs = .ok host ∧ host? = some host := by
  unfold parseHost at h
  rw [hweb.not_file, hweb.special, if_neg Bool.false_ne_true, if_pos rfl] at h
  split at h
  · cases h
  · next hne =>
    obtain ⟨host, hhost, rfl⟩ := map_eq_ok.mp h
    exact ⟨mt List.isEmpty_iff.mpr hne, host, hhost, rfl⟩

theorem of_parseAuthority {scheme : String} (hweb : IsWeb scheme) {cs : List Char} {u : Url}
    (h : parseAuthority scheme cs = .ok u) :
    ∃ hostPort hostChars portChars host,
      splitCredentials (cs.takeWhile (!endsAuthority ·)) = .ok ((u.username, u.password), hostPort) ∧
      splitHost false hostPort = (hostChars, portChars) ∧
      Host.parse hostChars = .ok host ∧ u.host = some host ∧
      readPort scheme portChars = .ok u.port ∧ u.scheme = scheme ∧
      u.path = .segments (absolutePath scheme
        ((cs.dropWhile (!endsAuthority ·)).takeWhile (!endsPath ·))) ∧
      (u.query, u.fragment) =
        splitTail true ((cs.dropWhile (!endsAuthority ·)).dropWhile (!endsPath ·)) := by
  unfold parseAuthority at h
  dsimp only at h
  rw [hweb.special] at h
  obtain ⟨⟨⟨username, password⟩, hostPort⟩, hcredentials, h⟩ := bind_eq_ok.mp h
  dsimp only at h
  generalize hsplit : splitHost false hostPort = parts at h
  obtain ⟨hostChars, portChars⟩ := parts
  dsimp only at h
  obtain ⟨host?, hhost, h⟩ := bind_eq_ok.mp h
  obtain ⟨hne, host, hparse, rfl⟩ := of_parseHost hweb hhost
  have hempty : hostChars.isEmpty = false := by rwa [List.isEmpty_eq_false_iff]
  simp only [hempty, Bool.false_and, Bool.false_eq_true, if_false] at h
  cases portChars with
  | nil =>
    cases h
    exact ⟨hostPort, hostChars, [], host, hcredentials, hsplit, hparse, rfl, rfl, rfl, rfl, rfl⟩
  | cons mark digits =>
    obtain ⟨port, hport, h⟩ := bind_eq_ok.mp h
    cases h
    exact ⟨hostPort, hostChars, mark :: digits, host, hcredentials, hsplit, hparse, rfl, hport, rfl, rfl,
      rfl⟩

theorem scheme_of_parseAuthority {scheme : String} {cs : List Char} {u : Url}
    (h : parseAuthority scheme cs = .ok u) : u.scheme = scheme := by
  unfold parseAuthority at h
  dsimp only at h
  obtain ⟨_, -, h⟩ := bind_eq_ok.mp h
  obtain ⟨_, -, h⟩ := bind_eq_ok.mp h
  split at h
  · obtain ⟨_, -, h⟩ := bind_eq_ok.mp h
    split at h <;> cases h
    rfl
  · split at h
    · cases h
    · obtain ⟨_, -, h⟩ := bind_eq_ok.mp h
      split at h <;> cases h
      rfl

theorem scheme_of_parseFile {cs : List Char} {u : Url} (h : parseFile none cs = .ok u) :
    u.scheme = "file" := by
  unfold parseFile at h
  dsimp only at h
  split at h
  · split at h
    · split at h
      · cases h
        rfl
      · obtain ⟨_, -, h⟩ := bind_eq_ok.mp h
        cases h
        rfl
    · split at h <;> cases h <;> rfl
  · cases h
    rfl

/-- A web address is read from its host on. -/
theorem exists_parseAuthority {text : String} {u : Url} (h : Url.parse text = .ok u)
    (hweb : IsWeb u.scheme) : ∃ cs, parseAuthority u.scheme cs = .ok u := by
  unfold Url.parse parseWith at h
  dsimp only at h
  split at h
  · next scheme rest hscheme =>
    unfold parseScheme at h
    dsimp only [Option.filter] at h
    split at h
    · rw [scheme_of_parseFile h] at hweb
      exact absurd hweb.not_file (by decide)
    · split at h
      · have hsame := scheme_of_parseAuthority h
        exact ⟨_, hsame ▸ h⟩
      · next hspecial =>
        have hsame : u.scheme = scheme := by
          split at h
          · exact scheme_of_parseAuthority h
          · cases h
            rfl
          · cases h
            rfl
        exact absurd (hsame ▸ hweb.special) hspecial
  · cases h

/-! ## Web addresses after they were read -/

/-- What a web address is after it was read. -/
structure IsReadWeb (u : Url) : Prop where
  scheme : IsWeb u.scheme
  username : ∀ c ∈ u.username.toList, Percent.isKept escapedInCredentials c = true
  password : ∀ secret, u.password = some secret →
    secret.toList ≠ [] ∧ ∀ c ∈ secret.toList, Percent.isKept escapedInCredentials c = true
  host : ∃ host, u.host = some host ∧ Host.IsRead host
  port : ∀ port, u.port = some port → port ≤ 65535 ∧ defaultPort? u.scheme ≠ some port
  path : ∃ segments, u.path = .segments segments ∧ ∀ s ∈ segments, IsSegment s

theorem IsReadWeb.isRead_host {u : Url} (h : IsReadWeb u) {host : Host} (hhost : u.host = some host) :
    Host.IsRead host := by
  obtain ⟨same, hsame, hread⟩ := h.host
  exact Option.some.inj (hsame.symm.trans hhost) ▸ hread

theorem isKept_of_mem_escape {cs : List Char} :
    ∀ c ∈ (escape escapedInCredentials cs).toList, Percent.isKept escapedInCredentials c = true := by
  have hescapes : Percent.escapeChars.all (Percent.isKept escapedInCredentials) = true := by decide
  intro c hc
  rw [escape, String.toList_ofList] at hc
  exact Percent.isKept_of_mem_encode hescapes hc

theorem of_splitCredentials {cs host : List Char} {name : String} {secret? : Option String}
    (h : splitCredentials cs = .ok ((name, secret?), host)) :
    (∀ c ∈ name.toList, Percent.isKept escapedInCredentials c = true) ∧
      ∀ secret, secret? = some secret →
        secret.toList ≠ [] ∧ ∀ c ∈ secret.toList, Percent.isKept escapedInCredentials c = true := by
  unfold splitCredentials at h
  dsimp only at h
  split at h
  · cases h
    exact ⟨fun _ hc => absurd hc List.not_mem_nil, nofun⟩
  · split at h
    · cases h
    · split at h
      · cases h
        exact ⟨isKept_of_mem_escape, nofun⟩
      · next secret hne =>
        cases h
        refine ⟨isKept_of_mem_escape, ?_⟩
        rintro _ ⟨⟩
        refine ⟨fun hempty => hne ?_, isKept_of_mem_escape⟩
        rw [escape, String.toList_ofList] at hempty
        exact Percent.encode_eq_nil hempty

theorem of_readPort {scheme : String} {cs : List Char} {port : Nat}
    (h : readPort scheme cs = .ok (some port)) : port ≤ 65535 ∧ defaultPort? scheme ≠ some port := by
  cases cs with
  | nil => cases h
  | cons mark digits =>
    unfold readPort parsePort at h
    dsimp only at h
    split at h
    · split at h
      · cases h
      · next hsmall =>
        split at h
        · cases h
        · next husual =>
          cases h
          rw [Bool.or_eq_true, not_or, decide_eq_true_iff] at husual
          exact ⟨Nat.not_lt.mp hsmall, husual.2⟩
    · cases h

theorem isSegment_absolutePath {scheme : String} (hweb : IsWeb scheme) (cs : List Char) :
    ∀ s ∈ absolutePath scheme cs, IsSegment s := by
  have hresolve : ∀ rest, ∀ s ∈ resolve false [] (splitPath true rest), IsSegment s := by
    intro rest
    refine isSegment_resolve (fun _ hs => absurd hs List.not_mem_nil) fun segment hsegment c hc => ?_
    rw [splitPath_eq_splitOnP] at hsegment
    have hslash := (of_mem_splitOnP hsegment c hc).2
    simpa using hslash
  unfold absolutePath
  dsimp only
  rw [hweb.special, hweb.not_file]
  split
  · exact fun _ hs => absurd hs List.not_mem_nil
  · exact hresolve _

theorem isReadWeb_of_parse {text : String} {u : Url} (h : Url.parse text = .ok u) (hweb : IsWeb u.scheme) :
    IsReadWeb u := by
  obtain ⟨cs, hcs⟩ := exists_parseAuthority h hweb
  obtain ⟨hostPort, hostChars, portChars, host, hcredentials, -, hparse, hhost, hport, -, hpath, -⟩ :=
    of_parseAuthority hweb hcs
  obtain ⟨husername, hpassword⟩ := of_splitCredentials hcredentials
  refine ⟨hweb, husername, hpassword, ⟨host, hhost, Host.isRead_of_parse hparse⟩, fun port hsome => ?_,
    ⟨_, hpath, isSegment_absolutePath hweb _⟩⟩
  rw [hsome] at hport
  exact of_readPort hport

/-! ## Characters before the path -/

/-- The characters that end what stands before a path, and those that are left out of addresses. -/
def breaks : List Char := "/\\?#\t\n\r".toList

theorem endsAuthority_of_not_mem {c : Char} (h : c ∉ breaks) : endsAuthority c = false := by
  rw [← Bool.not_eq_true]
  intro hends
  simp only [endsAuthority, endsPath, Bool.or_eq_true, decide_eq_true_eq] at hends
  rcases hends with (rfl | rfl | rfl) | rfl <;> exact h (by decide)

theorem of_isKept {c : Char} (h : Percent.isKept escapedInCredentials c = true) :
    c ∉ breaks ∧ c ≠ '@' ∧ c ≠ ':' := by
  have hall : ∀ d ∈ '@' :: ':' :: breaks, Percent.isKept escapedInCredentials d = false :=
    List.all_iff_forall_prop.mp (by decide)
  have hnone : c ∉ '@' :: ':' :: breaks := fun hc => Bool.false_ne_true ((hall c hc).symm.trans h)
  simp only [List.mem_cons, not_or] at hnone
  obtain ⟨hat, hcolon, hbreaks⟩ := hnone
  exact ⟨hbreaks, hat, hcolon⟩

/-! ## The host and the port -/

theorem splitHost_cons {inside : Bool} {c : Char} (h : (decide (c = ':') && !inside) = false)
    (rest : List Char) :
    splitHost inside (c :: rest) =
      (c :: (splitHost (c = '[' || inside && c ≠ ']') rest).1,
        (splitHost (c = '[' || inside && c ≠ ']') rest).2) := by
  rw [splitHost, h]
  rfl

theorem splitHost_outside {cs : List Char} (h : ∀ c ∈ cs, c ≠ ':' ∧ c ≠ '[') {rest : List Char}
    (hrest : ∀ c ∈ rest.head?, c = ':') : splitHost false (cs ++ rest) = (cs, rest) := by
  induction cs with
  | nil =>
    cases rest with
    | nil => rfl
    | cons c rest =>
      rw [hrest c rfl]
      rfl
  | cons c cs ih =>
    obtain ⟨⟨hcolon, hbracket⟩, hcs⟩ := List.forall_mem_cons.mp h
    rw [List.cons_append, splitHost_cons (by rw [decide_eq_false hcolon]; rfl), decide_eq_false hbracket,
      Bool.false_and, Bool.or_false, ih hcs]

theorem splitHost_inside {cs : List Char} (h : ']' ∉ cs) (rest : List Char) :
    splitHost true (cs ++ ']' :: rest) =
      (cs ++ ']' :: (splitHost false rest).1, (splitHost false rest).2) := by
  induction cs with
  | nil => rfl
  | cons c cs ih =>
    obtain ⟨hc, hcs⟩ := not_or.mp (mt List.mem_cons.mpr h)
    have hstay : (decide (c = '[') || true && decide (c ≠ ']')) = true := by
      rw [decide_eq_true (Ne.symm hc), Bool.true_and, Bool.or_true]
    rw [List.cons_append, splitHost_cons (Bool.and_false _), hstay, ih hcs, List.cons_append]

/-- The characters of a port behind its colon. -/
def portChars : Option Nat → List Char
  | some port => ':' :: Nat.toDigits 10 port
  | none => []

theorem head?_portChars (port : Option Nat) : ∀ c ∈ (portChars port).head?, c = ':' := by
  cases port with
  | none => exact nofun
  | some port =>
    rintro c ⟨⟩
    rfl

theorem not_mem_portChars {port : Option Nat} {c : Char} (h : c ∈ portChars port) :
    c ∉ breaks ∧ c ≠ '@' := by
  have hdigits : ∀ d ∈ "0123456789".toList, d ∉ breaks ∧ d ≠ '@' :=
    List.all_iff_forall_prop.mp (by decide)
  cases port with
  | none => cases h
  | some port =>
    rcases List.mem_cons.mp h with rfl | h
    · decide
    · exact hdigits c (Host.mem_digits_of_mem_toDigits h)

theorem readPort_portChars {u : Url} (h : IsReadWeb u) :
    readPort u.scheme (portChars u.port) = .ok u.port := by
  cases hport : u.port with
  | none => rfl
  | some port =>
    obtain ⟨hsmall, husual⟩ := h.port port hport
    have hdigits : (Nat.toDigits 10 port).all Char.isDigit = true :=
      List.all_eq_true.mpr fun c hc => Nat.isDigit_of_mem_toDigits (by decide) (by decide) hc
    have hempty : (Nat.toDigits 10 port).isEmpty = false :=
      List.isEmpty_eq_false_iff.mpr Nat.toDigits_ne_nil
    unfold portChars readPort parsePort
    dsimp only
    rw [if_pos hdigits, Numeral.decimal_toDigits, if_neg (Nat.not_lt.mpr hsmall), hempty,
      decide_eq_false husual]
    rfl

theorem of_isForbiddenInName {c : Char} (h : Host.isForbiddenInName c = false) :
    c ∉ breaks ∧ c ≠ '@' ∧ c ≠ ':' ∧ c ≠ '[' := by
  have hall : ∀ d ∈ '@' :: ':' :: '[' :: breaks, Host.isForbiddenInName d = true :=
    List.all_iff_forall_prop.mp (by decide)
  have hnone : c ∉ '@' :: ':' :: '[' :: breaks := fun hc =>
    Bool.false_ne_true (h.symm.trans (hall c hc))
  simp only [List.mem_cons, not_or] at hnone
  obtain ⟨hat, hcolon, hbracket, hbreaks⟩ := hnone
  exact ⟨hbreaks, hat, hcolon, hbracket⟩

theorem of_mem_hostText {host : Host} (h : Host.IsRead host) {c : Char} (hc : c ∈ host.text.toList) :
    c ∉ breaks ∧ c ≠ '@' := by
  rcases Host.text_cases h with ⟨hname, -⟩ | ⟨groups, rfl⟩
  · obtain ⟨hbreaks, hat, -⟩ := of_isForbiddenInName (hname.allowed c hc)
    exact ⟨hbreaks, hat⟩
  · have hall : ∀ d ∈ '[' :: ("0123456789abcdef:".toList ++ [']']), d ∉ breaks ∧ d ≠ '@' :=
      List.all_iff_forall_prop.mp (by decide)
    rw [Host.toList_text_ipv6] at hc
    refine hall c ?_
    rcases List.mem_cons.mp hc with rfl | hc
    · exact List.mem_cons_self
    · refine List.mem_cons_of_mem _ (List.mem_append.mpr ?_)
      exact (List.mem_append.mp hc).imp_left Ip.mem_of_mem_text6

theorem hostText_ne_nil {host : Host} (h : Host.IsRead host) : host.text.toList ≠ [] := by
  rcases Host.text_cases h with ⟨-, hne⟩ | ⟨groups, rfl⟩
  · exact hne
  · rw [Host.toList_text_ipv6]
    exact List.cons_ne_nil _ _

theorem splitHost_text {host : Host} (h : Host.IsRead host) (port : Option Nat) :
    splitHost false (host.text.toList ++ portChars port) = (host.text.toList, portChars port) := by
  rcases Host.text_cases h with ⟨hname, -⟩ | ⟨groups, rfl⟩
  · refine splitHost_outside (fun c hc => ?_) (head?_portChars port)
    obtain ⟨-, -, hcolon, hbracket⟩ := of_isForbiddenInName (hname.allowed c hc)
    exact ⟨hcolon, hbracket⟩
  · have hclosing : ']' ∉ (Ip.text6 groups).toList := fun hc =>
      absurd (Ip.mem_of_mem_text6 hc) (by decide)
    have hport : splitHost false ([] ++ portChars port) = ([], portChars port) :=
      splitHost_outside (fun _ hc => absurd hc List.not_mem_nil) (head?_portChars port)
    rw [List.nil_append] at hport
    have hopens : (decide ('[' = '[') || false && decide ('[' ≠ ']')) = true := rfl
    rw [Host.toList_text_ipv6, List.cons_append, List.append_assoc, List.singleton_append,
      splitHost_cons rfl, hopens, splitHost_inside hclosing, hport]

/-! ## The name and the password -/

theorem splitCredentials_of_not_mem {hostPort : List Char} (h : '@' ∉ hostPort) :
    splitCredentials hostPort = .ok (("", none), hostPort) := by
  unfold splitCredentials
  rw [if_pos]
  simpa using h

/-- What stands before the last at sign is a name, with a password behind the first colon. -/
theorem splitCredentials_append (user : List Char) {hostPort : List Char} (hne : hostPort ≠ [])
    (hat : '@' ∉ hostPort) :
    splitCredentials (user ++ '@' :: hostPort) =
      match (user.dropWhile (· ≠ ':')).drop 1 with
      | [] => .ok ((escape escapedInCredentials (user.takeWhile (· ≠ ':')), none), hostPort)
      | secret =>
        .ok ((escape escapedInCredentials (user.takeWhile (· ≠ ':')),
          some (escape escapedInCredentials secret)), hostPort) := by
  have hmark : ∀ c ∈ hostPort.reverse, decide (c ≠ '@') = true := by
    intro c hc
    rw [decide_eq_true_iff]
    rintro rfl
    exact hat (List.mem_reverse.mp hc)
  have hreverse : (user ++ '@' :: hostPort).reverse = hostPort.reverse ++ '@' :: user.reverse := by
    rw [List.reverse_append, List.reverse_cons, List.append_assoc]
    rfl
  have hcontains : (user ++ '@' :: hostPort).contains '@' = true :=
    List.contains_iff_mem.mpr (List.mem_append_right _ List.mem_cons_self)
  have huser : (('@' :: user.reverse).drop 1).reverse = user := List.reverse_reverse user
  unfold splitCredentials
  dsimp only
  rw [hcontains, if_neg (by decide), hreverse, takeWhile_append_mark hmark rfl,
    dropWhile_append_mark hmark rfl, List.reverse_reverse, huser]
  exact if_neg (mt List.isEmpty_iff.mp hne)

theorem escape_of_isKept {text : String}
    (h : ∀ c ∈ text.toList, Percent.isKept escapedInCredentials c = true) :
    escape escapedInCredentials text.toList = text := by
  rw [escape, Percent.encode_of_isKept h, String.ofList_toList]

theorem splitCredentials_credentialsText {u : Url} (h : IsReadWeb u) {hostPort : List Char}
    (hne : hostPort ≠ []) (hat : '@' ∉ hostPort) :
    splitCredentials (u.credentialsText.toList ++ hostPort) =
      .ok ((u.username, u.password), hostPort) := by
  have hname : ∀ c ∈ u.username.toList, decide (c ≠ ':') = true := fun c hc =>
    decide_eq_true (of_isKept (h.username c hc)).2.2
  unfold credentialsText
  dsimp only
  cases hpassword : u.password with
  | none =>
    by_cases hempty : u.username = ""
    · rw [hempty, if_pos (by decide)]
      exact splitCredentials_of_not_mem hat
    · have hlist : (u.username ++ "" ++ "@").toList ++ hostPort =
          u.username.toList ++ '@' :: hostPort := by simp
      rw [if_neg (by simpa using hempty), hlist, splitCredentials_append _ hne hat,
        List.takeWhile_eq_self_iff.mpr hname, List.dropWhile_eq_nil_iff.mpr hname]
      rw [escape_of_isKept h.username]
      rfl
  | some secret =>
    obtain ⟨hsecret, hkept⟩ := h.password secret hpassword
    have hlist : (u.username ++ (":" ++ secret) ++ "@").toList ++ hostPort =
        (u.username.toList ++ ':' :: secret.toList) ++ '@' :: hostPort := by simp
    rw [if_neg (by simp), hlist, splitCredentials_append _ hne hat, takeWhile_append_mark hname rfl,
      dropWhile_append_mark hname rfl, List.drop_one, List.tail_cons, escape_of_isKept h.username]
    split
    · next hnil => exact absurd hnil hsecret
    · rw [escape_of_isKept hkept]

/-! ## All that stands before the path -/

/-- The characters between the double slash and the path. -/
def authorityChars (u : Url) (host : Host) : List Char :=
  u.credentialsText.toList ++ (host.text.toList ++ portChars u.port)

theorem toList_authorityText {u : Url} {host : Host} (h : u.host = some host) :
    u.authorityText.toList = '/' :: '/' :: authorityChars u host := by
  unfold authorityText authorityChars
  rw [h]
  dsimp only
  cases u.port with
  | none => simp [portChars]
  | some port => simp [portChars, Nat.toList_repr]

theorem authorityChars_ne_nil (u : Url) {host : Host} (hread : Host.IsRead host) :
    authorityChars u host ≠ [] :=
  List.append_ne_nil_of_right_ne_nil _ (List.append_ne_nil_of_left_ne_nil (hostText_ne_nil hread) _)

theorem of_mem_authorityChars {u : Url} (h : IsReadWeb u) {host : Host} (hread : Host.IsRead host)
    {c : Char} (hc : c ∈ authorityChars u host) : c ∉ breaks := by
  have hname : ∀ d ∈ u.username.toList, d ∉ breaks := fun d hd => (of_isKept (h.username d hd)).1
  have hcolon : ':' ∉ breaks := by decide
  have hat : '@' ∉ breaks := by decide
  rcases List.mem_append.mp hc with hc | hc
  · unfold credentialsText at hc
    dsimp only at hc
    split at hc
    · cases hc
    · rw [String.toList_append, String.toList_append] at hc
      rcases List.mem_append.mp hc with hc | hc
      · rcases List.mem_append.mp hc with hc | hc
        · exact hname c hc
        · cases hpassword : u.password with
          | none =>
            rw [hpassword] at hc
            cases hc
          | some secret =>
            rw [hpassword, String.toList_append] at hc
            rcases List.mem_append.mp hc with hc | hc
            · rw [List.mem_singleton.mp hc]
              exact hcolon
            · exact (of_isKept ((h.password secret hpassword).2 c hc)).1
      · rw [List.mem_singleton.mp hc]
        exact hat
  · rcases List.mem_append.mp hc with hc | hc
    · exact (of_mem_hostText hread hc).1
    · exact (not_mem_portChars hc).1

/-- Name, password, host and port are read again, whatever path comes behind them. -/
theorem parseAuthority_authorityChars {u v : Url} (h : IsReadWeb u) {host : Host}
    (hhost : u.host = some host) {rest : List Char}
    (hv : parseAuthority u.scheme (authorityChars u host ++ '/' :: rest) = .ok v) :
    v.scheme = u.scheme ∧ v.username = u.username ∧ v.password = u.password ∧ v.host = u.host ∧
      v.port = u.port ∧
      v.path = .segments (absolutePath u.scheme (('/' :: rest).takeWhile (!endsPath ·))) ∧
      (v.query, v.fragment) = splitTail true (('/' :: rest).dropWhile (!endsPath ·)) := by
  have hread := h.isRead_host hhost
  have hinside : ∀ c ∈ authorityChars u host, (!endsAuthority c) = true := by
    intro c hc
    rw [endsAuthority_of_not_mem (of_mem_authorityChars h hread hc)]
    rfl
  have hat : '@' ∉ host.text.toList ++ portChars u.port := by
    intro hc
    rcases List.mem_append.mp hc with hc | hc
    · exact (of_mem_hostText hread hc).2 rfl
    · exact (not_mem_portChars hc).2 rfl
  have hne : host.text.toList ++ portChars u.port ≠ [] :=
    List.append_ne_nil_of_left_ne_nil (hostText_ne_nil hread) _
  obtain ⟨hostPort, hostChars, port, again, hcredentials, hsplit, hparse, hagain, hport, hscheme, hpath,
    htail⟩ := of_parseAuthority h.scheme hv
  rw [takeWhile_append_mark hinside rfl, authorityChars,
    splitCredentials_credentialsText h hne hat] at hcredentials
  obtain ⟨⟨husername, hpassword⟩, rfl⟩ :
      (u.username = v.username ∧ u.password = v.password) ∧ _ = hostPort := by simpa using hcredentials
  rw [splitHost_text hread] at hsplit
  obtain ⟨rfl, rfl⟩ : host.text.toList = hostChars ∧ portChars u.port = port := by simpa using hsplit
  rw [Host.parse_text hread hparse] at hagain
  rw [readPort_portChars h] at hport
  rw [dropWhile_append_mark hinside rfl] at hpath htail
  exact ⟨hscheme, husername.symm, hpassword.symm, hagain.trans hhost.symm, (Except.ok.inj hport).symm,
    hpath, htail⟩

/-! ## All that stands before the end of a text -/

/-- The characters that count at the end of a text. -/
def counted (cs : List Char) : List Char :=
  (cs.rdropWhile (!isVisible ·)).filter fun c => c ≠ '\t' && c ≠ '\n' && c ≠ '\r'

theorem prepare_append {front : List Char} (hstart : front.dropWhile (!isVisible ·) = front)
    (hend : front.rdropWhile (!isVisible ·) = front) (hne : front ≠ [])
    (hbreaks : ∀ c ∈ front, c ≠ '\t' ∧ c ≠ '\n' ∧ c ≠ '\r') (cs : List Char) :
    prepare (String.ofList (front ++ cs)) = front ++ counted cs := by
  have hkept : (front ++ cs).dropWhile (!isVisible ·) = front ++ cs := by
    rw [List.dropWhile_append, hstart, if_neg (mt List.isEmpty_iff.mp hne)]
  have hfilter : front.filter (fun c => c ≠ '\t' && c ≠ '\n' && c ≠ '\r') = front := by
    refine List.filter_eq_self.mpr fun c hc => ?_
    simpa [and_assoc] using hbreaks c hc
  unfold prepare
  dsimp only
  rw [String.toList_ofList, hkept]
  change ((front ++ cs).rdropWhile (!isVisible ·)).filter _ = _
  rw [rdropWhile_append hend, List.filter_append, hfilter]
  rfl

theorem splitScheme?_web {scheme : String} (hweb : IsWeb scheme) (cs : List Char) :
    splitScheme? (scheme.toList ++ ':' :: cs) = some (scheme, cs) := by
  rcases hweb with rfl | rfl <;> rfl

theorem parseScheme_web {scheme : String} (hweb : IsWeb scheme) {cs : List Char} (hne : cs ≠ [])
    (h : ∀ c ∈ cs, c ∉ breaks) (rest : List Char) :
    parseScheme none scheme ('/' :: '/' :: (cs ++ rest)) = parseAuthority scheme (cs ++ rest) := by
  obtain ⟨c, tail, rfl⟩ := List.exists_cons_of_ne_nil hne
  have hslash : (decide (c = '/') || decide (c = '\\')) = false := by
    rw [← Bool.not_eq_true, Bool.or_eq_true, decide_eq_true_iff, decide_eq_true_iff]
    rintro (rfl | rfl) <;> exact h _ List.mem_cons_self (by decide)
  have hslashes : ∀ d ∈ ['/', '/'], (decide (d = '/') || decide (d = '\\')) = true :=
    List.all_iff_forall_prop.mp (by decide)
  have hdrop := dropWhile_append_mark hslashes hslash (tail ++ rest)
  unfold parseScheme
  dsimp only [Option.filter]
  rw [hweb.not_file, hweb.special, if_neg Bool.false_ne_true, if_pos rfl]
  exact congrArg (parseAuthority scheme) hdrop

theorem of_mem_written {segments : List String} (h : ∀ s ∈ segments, IsSegment s) {c : Char}
    (hc : c ∈ written segments) : (c ≠ '\t' ∧ c ≠ '\n' ∧ c ≠ '\r') ∧ endsPath c = false := by
  have hall : ∀ d ∈ "\t\n\r?#".toList, Percent.isKept escapedInPath d = false :=
    List.all_iff_forall_prop.mp (by decide)
  obtain ⟨segment, hsegment, hc⟩ := List.mem_flatMap.mp hc
  rcases List.mem_cons.mp hc with rfl | hc
  · decide
  · have hne : ∀ d ∈ "\t\n\r?#".toList, c ≠ d := by
      rintro d hd rfl
      have hkept := (h segment hsegment).kept c hc
      rw [hall c hd] at hkept
      cases hkept
    refine ⟨⟨hne _ (by decide), hne _ (by decide), hne _ (by decide)⟩, ?_⟩
    rw [endsPath, decide_eq_false (hne '?' (by decide)), decide_eq_false (hne '#' (by decide))]
    rfl

/-- What an address starts with as it was read, up to a slash behind a path. -/
def frontChars (u : Url) (host : Host) (below : List String) : List Char :=
  u.scheme.toList ++ ':' :: '/' :: '/' :: (authorityChars u host ++ (written below ++ ['/']))

theorem prepare_frontChars {u : Url} (h : IsReadWeb u) {host : Host} (hread : Host.IsRead host)
    {below : List String} (hbelow : ∀ s ∈ below, IsSegment s) (cs : List Char) :
    prepare (String.ofList (frontChars u host below ++ cs)) = frontChars u host below ++ counted cs := by
  have hscheme : ∃ c tail, u.scheme.toList = c :: tail ∧ isVisible c = true ∧
      ∀ d ∈ u.scheme.toList, d ≠ '\t' ∧ d ≠ '\n' ∧ d ≠ '\r' := by
    rcases h.scheme with hscheme | hscheme <;> rw [hscheme] <;>
      exact ⟨_, _, rfl, by decide, List.all_iff_forall_prop.mp (by decide)⟩
  obtain ⟨c, tail, hchars, hvisible, hcount⟩ := hscheme
  refine prepare_append ?_ ?_ ?_ (fun d hd => ?_) cs
  · rw [frontChars, hchars]
    exact List.dropWhile_cons_of_neg (by rw [hvisible]; decide)
  · have hslash : ∀ d ∈ ['/'], (!isVisible d) = false := List.all_iff_forall_prop.mp (by decide)
    have hend := rdropWhile_append_of_forall
      (u.scheme.toList ++ ':' :: '/' :: '/' :: (authorityChars u host ++ written below))
      (List.cons_ne_nil _ _) hslash
    simpa [frontChars] using hend
  · rw [frontChars, hchars]
    exact List.cons_ne_nil _ _
  · rcases List.mem_append.mp hd with hd | hd
    · exact hcount d hd
    · simp only [List.mem_cons, List.mem_append, List.not_mem_nil, or_false] at hd
      rcases hd with rfl | rfl | rfl | hd | hd | rfl
      · decide
      · decide
      · decide
      · have hbreaks := of_mem_authorityChars h hread hd
        refine ⟨?_, ?_, ?_⟩ <;> rintro rfl <;> exact hbreaks (by decide)
      · exact (of_mem_written hbelow hd).1
      · decide

/-- What is written behind a path of a web address is read as what leads on from there. -/
theorem parse_below {u v : Url} (h : IsReadWeb u) {host : Host} (hhost : u.host = some host)
    {below : List String} (hbelow : ∀ s ∈ below, IsSegment s) {cs : List Char}
    (hv : Url.parse (String.ofList (frontChars u host below ++ cs)) = .ok v) :
    v = { u with
      path := .segments (resolve false below (splitPath true ((counted cs).takeWhile (!endsPath ·))))
      query := (splitTail true ((counted cs).dropWhile (!endsPath ·))).1
      fragment := (splitTail true ((counted cs).dropWhile (!endsPath ·))).2 } := by
  have hread := h.isRead_host hhost
  have hchars : frontChars u host below ++ counted cs = u.scheme.toList ++ ':' :: '/' :: '/' ::
      (authorityChars u host ++ (written below ++ '/' :: counted cs)) := by
    simp [frontChars]
  unfold Url.parse parseWith at hv
  dsimp only at hv
  rw [prepare_frontChars h hread hbelow, hchars, splitScheme?_web h.scheme] at hv
  dsimp only at hv
  rw [parseScheme_web h.scheme (authorityChars_ne_nil u hread) fun _ => of_mem_authorityChars h hread,
    written_append_slash] at hv
  obtain ⟨hscheme, husername, hpassword, hsamehost, hport, hpath, htail⟩ :=
    parseAuthority_authorityChars h hhost hv
  have hinside : ∀ c ∈ written below ++ ['/'], (!endsPath c) = true := by
    intro c hc
    rcases List.mem_append.mp hc with hc | hc
    · rw [(of_mem_written hbelow hc).2]
      rfl
    · rw [List.mem_singleton.mp hc]
      rfl
  have hsplit : written below ++ '/' :: counted cs = (written below ++ ['/']) ++ counted cs := by simp
  rw [← written_append_slash, hsplit, List.takeWhile_append_of_pos hinside, List.append_assoc,
    List.singleton_append, absolutePath_segments h.scheme.special h.scheme.not_file hbelow] at hpath
  rw [← written_append_slash, hsplit, List.dropWhile_append_of_pos hinside] at htail
  have hquery : v.query = (splitTail true ((counted cs).dropWhile (!endsPath ·))).1 :=
    congrArg Prod.fst htail
  have hfragment : v.fragment = (splitTail true ((counted cs).dropWhile (!endsPath ·))).2 :=
    congrArg Prod.snd htail
  calc v = ⟨v.scheme, v.username, v.password, v.host, v.port, v.path, v.query, v.fragment⟩ := rfl
    _ = _ := by rw [hscheme, husername, hpassword, hsamehost, hport, hpath, hquery, hfragment]

end Credential.Url
