import Credential.Proofs.Percent
import Credential.Proofs.Text
import Credential.Url.Parser
/-!
# Credential.Proofs.Url.Path — where the segments of a path lead

The segments of a path are resolved one after the other, and each changes only the end of what there is
(`step_append`). So segments that never climb above where they start are resolved behind any path as they
are without it (`resolve_append`). What a path is resolved to can be written and read again
(`absolutePath_segments`), for no segment of it is a dot segment or has anything left to escape.
-/

namespace Credential.Url

/-! ## Dots -/

/-- Words that are made of dots only, some of which may be escaped. -/
inductive IsDots : List Char → Prop where
  | nil : IsDots []
  | dot {cs : List Char} (h : IsDots cs) : IsDots ('.' :: cs)
  | escaped {c : Char} (hc : c.toLower = 'e') {cs : List Char} (h : IsDots cs) :
      IsDots ('%' :: '2' :: c :: cs)

/-- Only letters have two cases, and lower case is one of them. -/
theorem toLower_cases (c : Char) :
    c.toLower = c ∨ c.toLower.isAlpha = true ∧ c.toLower.toLower = c.toLower := by
  have hall : ∀ n ∈ List.range 26, (Char.ofNat (65 + n)).toLower.isAlpha = true ∧
      (Char.ofNat (65 + n)).toLower.toLower = (Char.ofNat (65 + n)).toLower := by decide
  by_cases hupper : c.val ≥ 'A'.val ∧ c.val ≤ 'Z'.val
  · have hlow : 65 ≤ c.toNat := hupper.1
    have hhigh : c.toNat ≤ 90 := hupper.2
    have hletter := hall (c.toNat - 65) (List.mem_range.mpr (by omega))
    rw [show 65 + (c.toNat - 65) = c.toNat by omega, Char.ofNat_toNat] at hletter
    exact .inr hletter
  · exact .inl (dif_neg hupper)

theorem eq_of_toLower {c d : Char} (h : c.toLower = d) (hd : d.isAlpha = false) : c = d := by
  subst h
  rcases toLower_cases c with hself | ⟨hletter, -⟩
  · exact hself.symm
  · rw [hd] at hletter
    cases hletter

theorem toLower_toLower (c : Char) : c.toLower.toLower = c.toLower := by
  rcases toLower_cases c with hself | ⟨-, hlower⟩
  · rw [hself, hself]
  · exact hlower

theorem isDots_of_map_toLower {cs : List Char} (h : IsDots (cs.map Char.toLower)) : IsDots cs := by
  generalize hlower : cs.map Char.toLower = word at h
  induction h generalizing cs with
  | nil =>
    rw [List.map_eq_nil_iff.mp hlower]
    exact .nil
  | dot _ ih =>
    obtain ⟨a, rest, rfl, ha, hrest⟩ := List.map_eq_cons_iff.mp hlower
    rw [eq_of_toLower ha (by decide)]
    exact .dot (ih hrest)
  | escaped hd _ ih =>
    obtain ⟨a, tail, rfl, ha, htail⟩ := List.map_eq_cons_iff.mp hlower
    obtain ⟨b, last, rfl, hb, hlast⟩ := List.map_eq_cons_iff.mp htail
    obtain ⟨c, rest, rfl, rfl, hrest⟩ := List.map_eq_cons_iff.mp hlast
    rw [toLower_toLower] at hd
    rw [eq_of_toLower ha (by decide), eq_of_toLower hb (by decide)]
    exact .escaped hd (ih hrest)

theorem isDots_of_contains {words : List String} (hwords : ∀ word ∈ words, IsDots word.toList)
    {cs : List Char} (h : words.contains (String.ofList (cs.map Char.toLower)) = true) : IsDots cs := by
  have hword := hwords _ (List.contains_iff_mem.mp h)
  rw [String.toList_ofList] at hword
  exact isDots_of_map_toLower hword

theorem isDots_of_isSingleDot {cs : List Char} (h : isSingleDot cs = true) : IsDots cs := by
  refine isDots_of_contains (fun word hword => ?_) h
  simp only [List.mem_cons, List.not_mem_nil, or_false] at hword
  rcases hword with rfl | rfl
  · exact .dot .nil
  · exact .escaped (by decide) .nil

theorem isDots_of_isDoubleDot {cs : List Char} (h : isDoubleDot cs = true) : IsDots cs := by
  refine isDots_of_contains (fun word hword => ?_) h
  simp only [List.mem_cons, List.not_mem_nil, or_false] at hword
  rcases hword with rfl | rfl | rfl | rfl
  · exact .dot (.dot .nil)
  · exact .escaped (by decide) (.dot .nil)
  · exact .dot (.escaped (by decide) .nil)
  · exact .escaped (by decide) (.escaped (by decide) .nil)

/-- The escape of a byte that is part of a word of dots is that of the dot. -/
theorem toNat_of_isDots {b : UInt8} {more : List Char} (h : IsDots (Percent.encodeByte b ++ more)) :
    b.toNat = 46 := by
  have hdigit : ∀ n ∈ List.range 16, (Percent.digit n = '2' → n = 2) ∧
      ((Percent.digit n).toLower = 'e' → n = 14) := by decide
  have hb := b.toNat_lt
  generalize hword : Percent.encodeByte b ++ more = word at h
  cases h with
  | nil => cases hword
  | dot _ => exact absurd (List.cons.inj hword).1 (by decide)
  | escaped he _ =>
    obtain ⟨htwo, hrest⟩ := List.cons.inj (List.cons.inj hword).2
    rw [← (List.cons.inj hrest).1] at he
    have hhigh := (hdigit (b.toNat / 16) (List.mem_range.mpr (by omega))).1 htwo
    have hlow := (hdigit (b.toNat % 16) (List.mem_range.mpr (by omega))).2 he
    omega

/-- No escape makes a word of dots: what is one after it was escaped needed no escape. -/
theorem encode_of_isDots {escaped : Char → Bool} (hdot : Percent.isKept escaped '.' = true)
    {cs : List Char} (h : IsDots (Percent.encode escaped cs)) : Percent.encode escaped cs = cs := by
  generalize hword : Percent.encode escaped cs = word at h
  induction h generalizing cs with
  | nil => exact (Percent.encode_eq_nil hword).symm
  | dot _ ih =>
    obtain ⟨rest, rfl, hrest⟩ := Percent.encode_eq_cons_of_ne hword (by decide)
    rw [ih hrest]
  | @escaped d hd _ hdots ih =>
    obtain ⟨c, tail, rfl, ⟨-, rfl, htail⟩ | ⟨hkept, b, bs, hbytes, hescape⟩⟩ :=
      Percent.encode_eq_cons hword
    · have hne : d ≠ '%' := by
        rintro rfl
        exact absurd hd (by decide)
      obtain ⟨last, rfl, hlast⟩ := Percent.encode_eq_cons_of_ne htail (by decide)
      obtain ⟨rest, rfl, hrest⟩ := Percent.encode_eq_cons_of_ne hlast hne
      rw [ih hrest]
    · -- the byte would be that of the dot, which is not escaped
      have hescaped := IsDots.escaped hd hdots
      rw [← hescape] at hescaped
      have hb := toNat_of_isDots hescaped
      have hc : c.toNat = 46 := (Text.toNat_of_utf8EncodeChar hbytes (by omega)).trans hb
      rw [← Char.ofNat_toNat c, hc, show Char.ofNat 46 = '.' from rfl, hdot] at hkept
      cases hkept

/-! ## Segments -/

/-- What the segments of a path are after it was resolved. -/
structure IsSegment (segment : String) : Prop where
  kept : ∀ c ∈ segment.toList, Percent.isKept escapedInPath c = true
  whole : ∀ c ∈ segment.toList, c ≠ '/' ∧ c ≠ '\\'
  notDots : isDoubleDot segment.toList = false ∧ isSingleDot segment.toList = false

theorem isSegment_empty : IsSegment "" :=
  ⟨fun _ hc => absurd hc List.not_mem_nil, fun _ hc => absurd hc List.not_mem_nil, by decide⟩

theorem isSegment_escape {segment : List Char} (hwhole : ∀ c ∈ segment, c ≠ '/' ∧ c ≠ '\\')
    (hdouble : isDoubleDot segment = false) (hsingle : isSingleDot segment = false) :
    IsSegment (escape escapedInPath segment) := by
  have hescapes : Percent.escapeChars.all (Percent.isKept escapedInPath) = true := by decide
  have hslashes : ∀ c ∈ Percent.escapeChars, c ≠ '/' ∧ c ≠ '\\' :=
    List.all_iff_forall_prop.mp (by decide)
  have hlist : (escape escapedInPath segment).toList = Percent.encode escapedInPath segment :=
    String.toList_ofList
  constructor
  · rw [hlist]
    exact fun c hc => Percent.isKept_of_mem_encode hescapes hc
  · rw [hlist]
    intro c hc
    rcases Percent.of_mem_encode hc with hc | ⟨hc, -⟩
    · exact hslashes c hc
    · exact hwhole c hc
  · have hdots : ∀ isDot : List Char → Bool, (∀ cs, isDot cs = true → IsDots cs) →
        isDot segment = false → isDot (escape escapedInPath segment).toList = false := by
      intro isDot hisDots hsegment
      rw [hlist, ← Bool.not_eq_true]
      intro hdot
      rw [encode_of_isDots (by decide) (hisDots _ hdot), hsegment] at hdot
      cases hdot
    exact ⟨hdots isDoubleDot (fun _ => isDots_of_isDoubleDot) hdouble,
      hdots isSingleDot (fun _ => isDots_of_isSingleDot) hsingle⟩

/-! ## Resolving -/

/-- A step adds an empty segment, the segment itself, or nothing. -/
theorem isSegment_step {path : List String} (hpath : ∀ s ∈ path, IsSegment s) {segment : List Char}
    (hwhole : ∀ c ∈ segment, c ≠ '/' ∧ c ≠ '\\') (isLast : Bool) :
    ∀ s ∈ step false path segment isLast, IsSegment s := by
  have hclose : ∀ path : List String, (∀ s ∈ path, IsSegment s) →
      ∀ s ∈ (if isLast then path ++ [""] else path), IsSegment s := by
    intro path hpath s hs
    split at hs
    · rcases List.mem_append.mp hs with hs | hs
      · exact hpath s hs
      · rw [List.mem_singleton.mp hs]
        exact isSegment_empty
    · exact hpath s hs
  unfold step
  dsimp only
  split
  · exact hclose path.dropLast fun s hs => hpath s (List.dropLast_subset path hs)
  · next hdouble =>
    split
    · exact hclose path hpath
    · next hsingle =>
      intro s hs
      rcases List.mem_append.mp hs with hs | hs
      · exact hpath s hs
      · rw [List.mem_singleton.mp hs]
        exact isSegment_escape hwhole (eq_false_of_ne_true hdouble) (eq_false_of_ne_true hsingle)

theorem resolve_cons (isFile : Bool) (path : List String) (segment : List Char) {rest : List (List Char)}
    (h : rest ≠ []) :
    resolve isFile path (segment :: rest) = resolve isFile (step isFile path segment false) rest := by
  cases rest with
  | nil => exact absurd rfl h
  | cons next rest => rfl

theorem isSegment_resolve {path : List String} (hpath : ∀ s ∈ path, IsSegment s)
    {segments : List (List Char)}
    (hwhole : ∀ segment ∈ segments, ∀ c ∈ segment, c ≠ '/' ∧ c ≠ '\\') :
    ∀ s ∈ resolve false path segments, IsSegment s := by
  induction segments generalizing path with
  | nil => exact hpath
  | cons segment rest ih =>
    obtain ⟨hsegment, hrest⟩ := List.forall_mem_cons.mp hwhole
    by_cases hlast : rest = []
    · subst hlast
      exact isSegment_step hpath hsegment true
    · rw [resolve_cons false path segment hlast]
      exact ih (isSegment_step hpath hsegment false) hrest

/-! ## Climbing -/

/-- Whether segments lead at some point above where they start, if `depth` segments stand there. -/
def climbs : Nat → List (List Char) → Bool
  | _, [] => false
  | depth, segment :: rest =>
    if isDoubleDot segment then depth == 0 || climbs (depth - 1) rest
    else if isSingleDot segment then climbs depth rest
    else climbs (depth + 1) rest

/-- A step changes the end of a path only. -/
theorem step_append (base : List String) {extra : List String} {segment : List Char}
    (h : isDoubleDot segment = true → extra ≠ []) (isLast : Bool) :
    step false (base ++ extra) segment isLast = base ++ step false extra segment isLast := by
  have hclose : ∀ path : List String, (if isLast then base ++ path ++ [""] else base ++ path) =
      base ++ (if isLast then path ++ [""] else path) := by
    intro path
    rw [List.append_assoc]
    exact (apply_ite (base ++ ·) _ _ _).symm
  unfold step
  dsimp only
  split
  · next hdouble =>
    have hdrop : shorten false (base ++ extra) = base ++ shorten false extra :=
      List.dropLast_append_of_ne_nil (h hdouble)
    rw [hdrop]
    exact hclose _
  · split
    · exact hclose extra
    · exact List.append_assoc _ _ _

theorem of_climbs_cons {extra : List String} {segment : List Char} {rest : List (List Char)}
    (h : climbs extra.length (segment :: rest) = false) :
    (isDoubleDot segment = true → extra ≠ []) ∧
      climbs (step false extra segment false).length rest = false := by
  unfold climbs at h
  unfold step
  dsimp only
  split at h
  · next hdouble =>
    rw [Bool.or_eq_false_iff] at h
    refine ⟨?_, ?_⟩
    · rintro - rfl
      exact absurd h.1 (by decide)
    · rw [if_pos hdouble, if_neg Bool.false_ne_true]
      exact (List.length_dropLast ▸ h.2 : climbs extra.dropLast.length rest = false)
  · next hdouble =>
    refine ⟨fun hyes => absurd hyes hdouble, ?_⟩
    rw [if_neg hdouble]
    split at h
    · next hsingle => rwa [if_pos hsingle]
    · next hsingle =>
      rw [if_neg hsingle]
      exact (List.length_append ▸ h : climbs (extra ++ [escape escapedInPath segment]).length rest = false)

/-- Segments that do not climb lead behind a path where they lead without it. -/
theorem resolve_append (base : List String) {extra : List String} {segments : List (List Char)}
    (h : climbs extra.length segments = false) :
    resolve false (base ++ extra) segments = base ++ resolve false extra segments := by
  induction segments generalizing extra with
  | nil => rfl
  | cons segment rest ih =>
    obtain ⟨hdouble, hrest⟩ := of_climbs_cons h
    by_cases hlast : rest = []
    · subst hlast
      exact step_append base hdouble true
    · rw [resolve_cons _ _ _ hlast, resolve_cons _ _ _ hlast, step_append base hdouble, ih hrest]

theorem resolve_ne_nil (path : List String) {segments : List (List Char)} (h : segments ≠ []) :
    resolve false path segments ≠ [] := by
  induction segments generalizing path with
  | nil => exact absurd rfl h
  | cons segment rest ih =>
    by_cases hlast : rest = []
    · subst hlast
      change step false path segment true ≠ []
      unfold step
      dsimp only
      split
      · exact List.append_ne_nil_of_right_ne_nil _ (List.cons_ne_nil _ _)
      · split <;> exact List.append_ne_nil_of_right_ne_nil _ (List.cons_ne_nil _ _)
    · rw [resolve_cons _ _ _ hlast]
      exact ih _ hlast

/-! ## Writing and reading -/

/-- The characters of segments with a slash before each. -/
def written (segments : List String) : List Char := segments.flatMap fun s => '/' :: s.toList

theorem toList_pathText {u : Url} {segments : List String} (h : u.path = .segments segments) :
    u.pathText.toList = written segments := by
  rw [pathText, h]
  change (String.join (segments.map ("/" ++ ·))).toList = _
  rw [String.toList_join, List.flatMap_map]
  simp only [String.toList_append]
  rfl

theorem step_of_isSegment {segment : String} (h : IsSegment segment) (path : List String) (isLast : Bool) :
    step false path segment.toList isLast = path ++ [segment] := by
  have hescape : escape escapedInPath segment.toList = segment := by
    rw [escape, Percent.encode_of_isKept h.kept, String.ofList_toList]
  unfold step
  dsimp only
  rw [if_neg (ne_true_of_eq_false h.notDots.1), if_neg (ne_true_of_eq_false h.notDots.2), hescape]
  rfl

theorem resolve_segments {segments : List String} (h : ∀ s ∈ segments, IsSegment s) (path : List String)
    {rest : List (List Char)} (hrest : rest ≠ []) :
    resolve false path (segments.map String.toList ++ rest) = resolve false (path ++ segments) rest := by
  induction segments generalizing path with
  | nil => rw [List.append_nil, List.map_nil, List.nil_append]
  | cons segment segments ih =>
    obtain ⟨hsegment, hsegments⟩ := List.forall_mem_cons.mp h
    rw [List.map_cons, List.cons_append, resolve_cons _ _ _ (List.append_ne_nil_of_right_ne_nil _ hrest),
      step_of_isSegment hsegment, ih hsegments, List.append_assoc]
    rfl

theorem splitPath_eq_splitOnP (special : Bool) (cs : List Char) :
    splitPath special cs = cs.splitOnP fun c => c = '/' || special && c = '\\' := by
  induction cs with
  | nil => rfl
  | cons c cs ih =>
    obtain ⟨first, rest, hparts⟩ := List.exists_cons_of_ne_nil
      (List.splitOnP_ne_nil (fun c => c = '/' || special && c = '\\') cs)
    rw [List.splitOnP_cons_eq_if_modifyHead, splitPath, ih, hparts]
    rfl

theorem splitPath_segments {segments : List String} (h : ∀ s ∈ segments, IsSegment s) (tail : List Char) :
    splitPath true ((segments.flatMap fun s => s.toList ++ ['/']) ++ tail) =
      segments.map String.toList ++ splitPath true tail := by
  induction segments with
  | nil => rfl
  | cons segment segments ih =>
    obtain ⟨hsegment, hsegments⟩ := List.forall_mem_cons.mp h
    have hwhole : ∀ c ∈ segment.toList, (decide (c = '/') || true && decide (c = '\\')) = false := by
      intro c hc
      obtain ⟨hslash, hback⟩ := hsegment.whole c hc
      rw [decide_eq_false hslash, decide_eq_false hback]
      rfl
    rw [List.flatMap_cons, List.append_assoc, List.append_assoc, List.singleton_append,
      splitPath_eq_splitOnP, List.splitOnP_append_cons_of_forall_mem hwhole _ rfl,
      ← splitPath_eq_splitOnP, ih hsegments]
    rfl

theorem written_append_slash (segments : List String) (tail : List Char) :
    written segments ++ '/' :: tail = '/' :: ((segments.flatMap fun s => s.toList ++ ['/']) ++ tail) := by
  induction segments with
  | nil => rfl
  | cons segment segments ih =>
    rw [written, List.flatMap_cons, List.flatMap_cons, List.append_assoc, ← written, ih]
    simp only [List.cons_append, List.append_assoc, List.nil_append]

/-- A path that is written is read again, and what follows it is resolved behind it. -/
theorem absolutePath_segments {scheme : String} (hspecial : isSpecial scheme = true)
    (hfile : (scheme == "file") = false) {segments : List String} (h : ∀ s ∈ segments, IsSegment s)
    (tail : List Char) :
    absolutePath scheme (written segments ++ '/' :: tail) =
      resolve false segments (splitPath true tail) := by
  have hsplit : splitPath true tail ≠ [] := splitPath_eq_splitOnP true tail ▸ List.splitOnP_ne_nil _ _
  rw [written_append_slash]
  unfold absolutePath
  dsimp only
  rw [hspecial, hfile]
  change resolve false [] (splitPath true ((segments.flatMap fun s => s.toList ++ ['/']) ++ tail)) = _
  rw [splitPath_segments h]
  exact resolve_segments h [] hsplit

/-- Slashes at the end of a written path are empty segments at its end. -/
theorem rdropWhile_written {segments : List String} (h : ∀ s ∈ segments, IsSegment s) :
    (written segments).rdropWhile (· = '/') = written (segments.rdropWhile (· = "")) := by
  induction segments using List.reverseRecOn with
  | nil => rfl
  | append_singleton segments last ih =>
    obtain ⟨hsegments, hlast⟩ := List.forall_mem_append.mp h
    have hwritten : written (segments ++ [last]) = (written segments ++ ['/']) ++ last.toList := by
      rw [written, List.flatMap_append, List.flatMap_singleton, List.append_assoc]
      rfl
    by_cases hempty : last = ""
    · rw [hwritten, hempty, String.toList_empty, List.append_nil,
        List.rdropWhile_concat_pos _ _ _ (by decide), List.rdropWhile_concat_pos _ _ _ (by decide)]
      exact ih hsegments
    · rw [List.rdropWhile_concat_neg _ segments last (by simpa using hempty), hwritten]
      exact rdropWhile_append_of_forall _ (by simpa using hempty) fun c hc =>
        decide_eq_false ((hlast last List.mem_cons_self).whole c hc).1

end Credential.Url
