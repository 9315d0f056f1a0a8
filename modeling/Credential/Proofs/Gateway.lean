import Credential.Configuration
import Credential.Proofs.Url.Web
/-!
# Credential.Proofs.Gateway — documents behind the gateway

The name of an `ipfs` document is put behind the gateway's address and `/ipfs/`, and the whole is read
again. All that stands before the path is read as the gateway's own (`Url.parse_below`), so no name leads
to another server. The path of the gateway is read as it was written, and the segments of the name are
resolved behind it and `ipfs` (`documentUrl_ipfs`). Only segments that climb above `ipfs` lead out of it.
-/

namespace Credential

/-! ## The text of a web address -/

theorem Url.toList_text {u : Url} {host : Host} (hhost : u.host = some host) (hquery : u.query = none)
    (hfragment : u.fragment = none) :
    u.text.toList =
      u.scheme.toList ++ ':' :: '/' :: '/' :: (authorityChars u host ++ u.pathText.toList) := by
  have hmark : u.pathMark = "" := by
    unfold pathMark
    rw [hhost]
  rw [text, target, hquery, hfragment, hmark]
  simp only [String.toList_append, toList_authorityText hhost]
  simp

namespace Configuration

/-! ## Where gateways come from -/

theorem parse_of_readUrl {source text : String} {url : Url} (h : readUrl source text = .ok url) :
    Url.parse text = .ok url := mapError_eq_ok.mp h

/-- The gateway of a configuration is read from a text. -/
theorem exists_parse_of_ofEnvironment {lookup : String → Option String} {c : Configuration}
    (h : ofEnvironment lookup = .ok c) : ∃ source, Url.parse source = .ok c.gateway := by
  unfold ofEnvironment at h
  split at h
  · obtain ⟨_, -, h⟩ := bind_eq_ok.mp h
    obtain ⟨gateway, hgateway, h⟩ := bind_eq_ok.mp h
    cases h
    exact ⟨_, parse_of_readUrl hgateway⟩
  · cases h

theorem parse_of_ofServer {text : String} {c : Configuration} (h : ofServer text = .ok c) :
    Url.parse text = .ok c.gateway := by
  obtain ⟨url, hurl, h⟩ := bind_eq_ok.mp h
  cases h
  exact parse_of_readUrl hurl

/-! ## The text of a document's address -/

theorem toList_withoutSlashes (text : String) :
    (withoutSlashes text).toList = text.toList.rdropWhile (· = '/') := String.toList_ofList

theorem documentText_ipfs (c : Configuration) (rest : String) :
    c.documentText ("ipfs://" ++ rest) = withoutSlashes c.gateway.text ++ "/ipfs/" ++ rest := by
  have hname : ("ipfs://" ++ rest).toList = ipfsMark ++ rest.toList := String.toList_append
  unfold documentText
  rw [hname, if_pos (List.isPrefixOf_iff_prefix.mpr (List.prefix_append _ _)), List.drop_left,
    String.ofList_toList]

/-- The segments of the directory with the documents of a gateway. -/
def root (gateway : Url) : List String :=
  (Url.segmentsOf gateway.path).rdropWhile (· = "") ++ ["ipfs"]

section Gateway

variable {gateway : Url} (h : Url.IsReadWeb gateway)

include h

/-- The path of a gateway without the slashes at its end, with `ipfs` below it. -/
theorem written_root : Url.written (root gateway) = (withoutSlashes gateway.pathText ++ "/ipfs").toList := by
  obtain ⟨segments, hpath, hsegments⟩ := h.path
  rw [root, hpath, String.toList_append, toList_withoutSlashes, Url.toList_pathText hpath,
    Url.rdropWhile_written hsegments, Url.written, List.flatMap_append]
  rfl

theorem isSegment_root : ∀ s ∈ root gateway, Url.IsSegment s := by
  obtain ⟨segments, hpath, hsegments⟩ := h.path
  intro s hs
  rw [root, hpath] at hs
  rcases List.mem_append.mp hs with hs | hs
  · exact hsegments s ((List.rdropWhile_prefix _ _).subset hs)
  · rw [List.mem_singleton.mp hs]
    exact ⟨List.all_iff_forall_prop.mp (by decide), List.all_iff_forall_prop.mp (by decide), by decide⟩

/-- Slashes at the end of the text of a gateway are slashes at the end of its path. -/
theorem toList_withoutSlashes_text {host : Host} (hhost : gateway.host = some host)
    (hquery : gateway.query = none) (hfragment : gateway.fragment = none) :
    (withoutSlashes gateway.text).toList = gateway.scheme.toList ++ ':' :: '/' :: '/' ::
      (Url.authorityChars gateway host ++ (withoutSlashes gateway.pathText).toList) := by
  have hread := h.isRead_host hhost
  have hend : ∀ c ∈ Url.authorityChars gateway host, decide (c = '/') = false := by
    intro c hc
    refine decide_eq_false ?_
    rintro rfl
    exact Url.of_mem_authorityChars h hread hc (by decide)
  have hfront := rdropWhile_append_of_forall (gateway.scheme.toList ++ [':', '/', '/'])
    (Url.authorityChars_ne_nil gateway hread) hend
  have hchars : gateway.text.toList = gateway.scheme.toList ++ [':', '/', '/'] ++
      Url.authorityChars gateway host ++ gateway.pathText.toList := by
    rw [Url.toList_text hhost hquery hfragment]
    simp
  rw [toList_withoutSlashes, hchars, rdropWhile_append hfront, toList_withoutSlashes]
  simp

/-- The text of a gateway, with `ipfs` below it, is what an address below the documents starts with. -/
theorem frontChars_root {host : Host} (hhost : gateway.host = some host) (hquery : gateway.query = none)
    (hfragment : gateway.fragment = none) :
    Url.frontChars gateway host (root gateway) = (withoutSlashes gateway.text ++ "/ipfs/").toList := by
  rw [Url.frontChars, written_root h, String.toList_append, String.toList_append,
    toList_withoutSlashes_text h hhost hquery hfragment]
  simp

end Gateway

/-! ## The address of a document -/

/-- The segments that the name of a document is read as. -/
def namePath (rest : String) : List (List Char) :=
  Url.splitPath true ((Url.counted rest.toList).takeWhile (!Url.endsPath ·))

/-- The query and the fragment of the name of a document. -/
def nameTail (rest : String) : Option String × Option String :=
  Url.splitTail true ((Url.counted rest.toList).dropWhile (!Url.endsPath ·))

theorem namePath_ne_nil (rest : String) : namePath rest ≠ [] := by
  rw [namePath, Url.splitPath_eq_splitOnP]
  exact List.splitOnP_ne_nil _ _

/-- The address of an `ipfs` document. It is the gateway's but for the path and what follows it. The path is
what the name leads to from below the gateway's documents. So unless the name climbs above `ipfs`, the path
is that of the gateway, without slashes at its end, with `ipfs` and more below it. -/
theorem documentUrl_ipfs {c : Configuration} {source : String}
    (hgateway : Url.parse source = .ok c.gateway)
    (hscheme : c.gateway.scheme = "http" ∨ c.gateway.scheme = "https") (hquery : c.gateway.query = none)
    (hfragment : c.gateway.fragment = none) {rest : String} {url : Url}
    (h : c.documentUrl ("ipfs://" ++ rest) = .ok url) :
    url = { c.gateway with
      path := .segments (Url.resolve false (root c.gateway) (namePath rest))
      query := (nameTail rest).1
      fragment := (nameTail rest).2 } ∧
    (Url.climbs 0 (namePath rest) = false →
      ∃ below, url.pathText = withoutSlashes c.gateway.pathText ++ "/ipfs/" ++ below) := by
  have hread := Url.isReadWeb_of_parse hgateway hscheme
  obtain ⟨host, hhost, -⟩ := hread.host
  have hparse : Url.parse (c.documentText ("ipfs://" ++ rest)) = .ok url := parse_of_readUrl h
  have hchars : c.documentText ("ipfs://" ++ rest) =
      String.ofList (Url.frontChars c.gateway host (root c.gateway) ++ rest.toList) := by
    rw [documentText_ipfs, frontChars_root hread hhost hquery hfragment, ← String.toList_append,
      String.ofList_toList]
  rw [hchars] at hparse
  have hurl := Url.parse_below hread hhost (isSegment_root hread) hparse
  refine ⟨hurl, fun hstays => ?_⟩
  have hresolved : Url.resolve false (root c.gateway ++ []) (namePath rest) =
      root c.gateway ++ Url.resolve false [] (namePath rest) := Url.resolve_append _ hstays
  obtain ⟨first, more, hmore⟩ :=
    List.exists_cons_of_ne_nil (Url.resolve_ne_nil [] (namePath_ne_nil rest))
  rw [List.append_nil, hmore] at hresolved
  have hpath : url.path = .segments (root c.gateway ++ first :: more) := by
    rw [hurl, ← hresolved]
    rfl
  refine ⟨first ++ String.ofList (Url.written more), ?_⟩
  rw [← String.toList_inj, Url.toList_pathText hpath, Url.written, List.flatMap_append, ← Url.written,
    written_root hread]
  simp [Url.written]

/-- A gateway on the same machine. -/
def localGateway : Url :=
  { scheme := "http", username := "", password := none, host := some (.ipv4 2130706433), port := some 9000
    path := .segments [""], query := none, fragment := none }

/-- The configuration for that gateway. -/
def localConfiguration : Configuration :=
  { apiUrl := localGateway, username := none, password := none, gateway := localGateway, issuer := none
    timeout := 5 }

theorem parse_localGateway : Url.parse "http://127.0.0.1:9000" = .ok localConfiguration.gateway := by
  decide +kernel

theorem documentUrl_ipfs_schema :
    localConfiguration.documentUrl ("ipfs://" ++ "QmSchemaCid/schema.json") =
        .ok { localGateway with path := .segments ["ipfs", "QmSchemaCid", "schema.json"] } ∧
      ∃ below, { localGateway with path := .segments ["ipfs", "QmSchemaCid", "schema.json"] }.pathText =
        withoutSlashes localConfiguration.gateway.pathText ++ "/ipfs/" ++ below := by
  have hfound : localConfiguration.documentUrl ("ipfs://" ++ "QmSchemaCid/schema.json") =
      .ok { localGateway with path := .segments ["ipfs", "QmSchemaCid", "schema.json"] } := by
    decide +kernel
  exact ⟨hfound, (documentUrl_ipfs parse_localGateway (.inl rfl) rfl rfl hfound).2 (by decide +kernel)⟩

/-- The name of a document that leads out of `ipfs`. -/
theorem documentUrl_ipfs_climbing :
    Url.parse "http://127.0.0.1:9000" = .ok localConfiguration.gateway ∧
      localConfiguration.gateway.scheme = "http" ∧ localConfiguration.gateway.query = none ∧
      localConfiguration.gateway.fragment = none ∧
      localConfiguration.documentUrl "ipfs://Qm/../../y" =
        .ok { localGateway with path := .segments ["y"] } ∧
      ∀ below, { localGateway with path := .segments ["y"] }.pathText ≠
        withoutSlashes localConfiguration.gateway.pathText ++ "/ipfs/" ++ below := by
  have hfound : localConfiguration.documentUrl "ipfs://Qm/../../y" =
      .ok { localGateway with path := .segments ["y"] } := by decide +kernel
  have hpath : ("/ipfs/".toList.isPrefixOf "/y".toList) = false := by decide
  have htext : withoutSlashes localConfiguration.gateway.pathText ++ "/ipfs/" = "/ipfs/" := by
    decide +kernel
  refine ⟨parse_localGateway, rfl, rfl, rfl, hfound, fun below heq => ?_⟩
  rw [htext] at heq
  exact append_ne hpath below heq.symm

end Configuration

end Credential
