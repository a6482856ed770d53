import MostroApp.Lib.Text

set_option autoImplicit false

/-! # A node's relay list (`nostr/relay_list.rs`)

Relays are compared by their normalised URL. Normalising trims the URL before it strips the slashes
at its end, so what it returns is normal exactly when the slashes had no white space before them
(`relay_urls_stable_iff`).
-/

namespace MostroApp.RelayList

open Text

/-! ## Normalising -/

/-- `normalize_relay_url`, on characters. -/
def normalized (raw : List Char) : Option (List Char) :=
  (splitOnce "://".toList (trimmed raw)).bind fun r =>
    let scheme := asciiLowered r.1
    if scheme ≠ "ws".toList ∧ scheme ≠ "wss".toList then none
    else
      let rest := r.2.rdropWhile (· = '/')
      let host := rest.takeWhile (· ≠ '/')
      let path := rest.dropWhile (· ≠ '/')
      if host = [] then none
      else some (scheme ++ "://".toList ++ (asciiLowered host ++ path))

def normalizeRelayUrl (raw : String) : Option String :=
  (normalized raw.toList).map String.ofList

/-- The relay a tag announces. -/
def relayUrl (tag : List String) : Option String :=
  if tag.head? = some "r" then tag[1]?.bind normalizeRelayUrl else none

/-- One tag of `parse_relay_list`'s loop. -/
def pushUrl (urls : List String) (tag : List String) : List String :=
  match relayUrl tag with
  | none => urls
  | some url => if url ∈ urls then urls else urls ++ [url]

def parseRelayList (tags : List (List String)) : List String := tags.foldl pushUrl []

/-! ## What is normal -/

variable {raw u scheme rest host path : List Char}

/-- The form `normalize_relay_url` gives a URL. -/
structure Normal (scheme host path u : List Char) : Prop where
  eq : u = scheme ++ "://".toList ++ (host ++ path)
  webSocket : scheme = "ws".toList ∨ scheme = "wss".toList
  hosted : host ≠ []
  lower : asciiLowered host = host
  /-- The path begins where the host ends. -/
  split : (host ++ path).takeWhile (· ≠ '/') = host
  /-- There is no slash at the end. -/
  stripped : (host ++ path).rdropWhile (· = '/') = host ++ path

/-- The URL, trimmed and without the slashes at its end, still ends in white space. -/
def SpaceBeforeSlashes (raw : List Char) : Prop :=
  ∃ c ∈ ((trimmed raw).rdropWhile (· = '/')).getLast?, isWhiteSpace c = true

instance (raw : List Char) : Decidable (SpaceBeforeSlashes raw) :=
  decidable_of_iff (((trimmed raw).rdropWhile (· = '/')).getLast?.any isWhiteSpace = true) <| by
    unfold SpaceBeforeSlashes
    cases ((trimmed raw).rdropWhile (· = '/')).getLast? <;> simp

theorem normalized_eq_some (h : normalized raw = some u) :
    ∃ scheme rest, trimmed raw = scheme ++ "://".toList ++ rest ∧
      (asciiLowered scheme = "ws".toList ∨ asciiLowered scheme = "wss".toList) ∧
      (rest.rdropWhile (· = '/')).takeWhile (· ≠ '/') ≠ [] ∧
      u = asciiLowered scheme ++ "://".toList ++
        (asciiLowered ((rest.rdropWhile (· = '/')).takeWhile (· ≠ '/')) ++
          (rest.rdropWhile (· = '/')).dropWhile (· ≠ '/')) := by
  obtain ⟨⟨scheme, rest⟩, hsplit, h⟩ := Option.bind_eq_some_iff.mp h
  dsimp only at h
  split at h
  · cases h
  · next hscheme =>
    split at h
    · cases h
    · next hhost =>
      refine ⟨scheme, rest, splitOnce_eq_some hsplit, ?_, hhost, (Option.some.inj h).symm⟩
      by_contra hnone
      exact hscheme (not_or.mp hnone)

/-- Lower-casing a host leaves the URL's last character, or its lower case. -/
theorem getLast_lowered {c : Char} (h : (host ++ path).getLast? = some c) :
    (asciiLowered host ++ path).getLast? = some c ∨
      (asciiLowered host ++ path).getLast? = some c.toLower := by
  unfold asciiLowered
  rw [List.getLast?_append] at h ⊢
  cases hpath : path.getLast? with
  | some d =>
      rw [hpath] at h
      exact Or.inl h
  | none =>
      rw [hpath, Option.none_or] at h
      rw [Option.none_or, List.getLast?_map, h]
      exact Or.inr rfl

theorem takeWhile_dropWhile (p : Char → Bool) (l : List Char) :
    (l.dropWhile p).takeWhile p = [] := by
  induction l with
  | nil => rfl
  | cons c l ih =>
      by_cases hc : p c = true
      · rw [List.dropWhile_cons_of_pos hc]
        exact ih
      · rw [List.dropWhile_cons_of_neg hc, List.takeWhile_cons_of_neg hc]

/-- A URL's last character is that of what was stripped of slashes, up to its case. -/
theorem normalized_last (h : normalized raw = some u) :
    ∃ scheme host path c, u = asciiLowered scheme ++ "://".toList ++ (asciiLowered host ++ path) ∧
      (asciiLowered scheme = "ws".toList ∨ asciiLowered scheme = "wss".toList) ∧ host ≠ [] ∧
      (∀ d ∈ host, d ≠ '/') ∧ path.takeWhile (· ≠ '/') = [] ∧ c ≠ '/' ∧
      ((trimmed raw).rdropWhile (· = '/')).getLast? = some c ∧
      ((asciiLowered host ++ path).getLast? = some c ∨
        (asciiLowered host ++ path).getLast? = some c.toLower) := by
  obtain ⟨scheme, rest, htrim, hscheme, hhost, rfl⟩ := normalized_eq_some h
  have hrest : rest.rdropWhile (· = '/') ≠ [] := by
    intro hnil
    rw [hnil] at hhost
    exact hhost rfl
  have hlast := List.getLast?_eq_some_getLast hrest
  have hslash := List.rdropWhile_last_not (· = '/') rest hrest
  refine ⟨scheme, _, _, _, rfl, hscheme, hhost,
    fun d hd => by simpa using List.mem_takeWhile_imp hd,
    takeWhile_dropWhile _ _, by simpa using hslash, ?_, getLast_lowered ?_⟩
  · rw [htrim, rdropWhile_append hrest, List.getLast?_append, hlast]
    rfl
  · rw [List.takeWhile_append_dropWhile]
    exact hlast

theorem normal_of_normalized (h : normalized raw = some u) :
    ∃ scheme host path, Normal scheme host path u := by
  obtain ⟨scheme, host, path, c, rfl, hscheme, hhost, hnoslash, hpath, hc, -, hlast⟩ :=
    normalized_last h
  refine ⟨asciiLowered scheme, asciiLowered host, path, rfl, hscheme, ?_, ?_, ?_, ?_⟩
  · exact fun hnil => hhost (List.map_eq_nil_iff.mp hnil)
  · unfold asciiLowered
    rw [List.map_map]
    exact List.map_congr_left fun d _ => toLower_toLower d
  · have hlowered : ∀ d ∈ asciiLowered host, decide (d ≠ '/') = true := by
      intro d hd
      obtain ⟨d', hd', rfl⟩ := List.mem_map.mp hd
      exact decide_eq_true fun heq => hnoslash d' hd' ((toLower_eq_iff (by decide)).mp heq)
    rw [List.takeWhile_append_of_pos hlowered, hpath, List.append_nil]
  · refine List.rdropWhile_eq_self_iff.mpr fun hne => ?_
    rw [List.getLast?_eq_some_getLast hne] at hlast
    rcases hlast with hlast | hlast
    · rw [Option.some.inj hlast]
      simpa using hc
    · rw [Option.some.inj hlast, decide_eq_true_eq]
      exact fun heq => hc ((toLower_eq_iff (by decide)).mp heq)

/-- The URL ends in white space when the slashes stripped from it had white space before them. -/
theorem getLast_normalized (h : normalized raw = some u) :
    (∃ c ∈ u.getLast?, isWhiteSpace c = true) ↔ SpaceBeforeSlashes raw := by
  obtain ⟨scheme, host, path, c, rfl, -, -, -, -, -, hbefore, hlast⟩ := normalized_last h
  unfold SpaceBeforeSlashes
  rw [List.getLast?_append, hbefore]
  rcases hlast with hlast | hlast
  · rw [hlast]
    rfl
  · rw [hlast]
    simp

/-- A normal URL that does not end in white space is its own normalisation. -/
theorem Normal.normalized (h : Normal scheme host path u)
    (hspace : ¬ ∃ c ∈ u.getLast?, isWhiteSpace c = true) : normalized u = some u := by
  have hscheme : asciiLowered scheme = scheme ∧ ':' ∉ scheme := by
    rcases h.webSocket with rfl | rfl <;> decide
  have hhead : ∀ c ∈ u.head?, isWhiteSpace c = false := by
    rw [h.eq]
    rcases h.webSocket with rfl | rfl
    · intro c hc
      obtain rfl := Option.some.inj hc
      decide
    · intro c hc
      obtain rfl := Option.some.inj hc
      decide
  have hbare : Bare u := ⟨hhead, fun c hc => Bool.eq_false_iff.mpr fun hw => hspace ⟨c, hc, hw⟩⟩
  have hpath : (host ++ path).dropWhile (· ≠ '/') = path := by
    have hparts : (host ++ path).takeWhile (· ≠ '/') ++ (host ++ path).dropWhile (· ≠ '/') =
        host ++ path := List.takeWhile_append_dropWhile
    rw [h.split] at hparts
    exact List.append_cancel_left hparts
  have hsplit : splitOnce "://".toList u = some (scheme, host ++ path) := by
    rw [h.eq]
    exact splitOnce_of_notMem hscheme.2
  unfold RelayList.normalized
  rw [trimmed_eq_self hbare, hsplit, Option.bind_some]
  dsimp only
  rw [hscheme.1, h.stripped, h.split, hpath, h.lower, if_neg h.hosted, if_neg, ← h.eq]
  exact fun hne => h.webSocket.elim hne.1 hne.2

/-- Normalising never lengthens a URL. -/
theorem normalized_length_le (h : RelayList.normalized raw = some u) :
    u.length ≤ (trimmed raw).length := by
  obtain ⟨scheme, rest, htrim, -, -, rfl⟩ := normalized_eq_some h
  have hrest := (List.rdropWhile_prefix (· = '/') rest).length_le
  have hparts := congrArg List.length
    (List.takeWhile_append_dropWhile (p := (· ≠ '/')) (l := rest.rdropWhile (· = '/')))
  rw [List.length_append] at hparts
  rw [htrim]
  simp only [asciiLowered, List.length_append, List.length_map]
  omega

/-- **What is normalised stays so exactly when no white space was left before the slashes.** -/
theorem normalized_stable_iff (h : normalized raw = some u) :
    normalized u = some u ↔ ¬SpaceBeforeSlashes raw := by
  rw [← getLast_normalized h]
  constructor
  · rintro hstable ⟨c, hc, hw⟩
    have heq : trimmed u = u :=
      (trimmed_isInfix u).eq_of_length (Nat.le_antisymm (trimmed_isInfix u).length_le
        (normalized_length_le hstable))
    rw [trimmed_getLast (heq.symm ▸ hc)] at hw
    cases hw
  · intro hspace
    obtain ⟨scheme, host, path, hnormal⟩ := normal_of_normalized h
    exact hnormal.normalized hspace

/-! ## The list -/

/-- The relays of a list of tags, in order and with repetitions. -/
def announced (tags : List (List String)) : List String := tags.filterMap relayUrl

/-- What a relay list is read for: each announced relay once, in the order of first occurrence,
under a URL that is its own normalisation. -/
structure ListRight (tags : List (List String)) (urls : List String) : Prop where
  mem : ∀ url, url ∈ urls ↔ url ∈ announced tags
  distinct : urls.Nodup
  ordered : urls.Pairwise fun a b => (announced tags).idxOf a < (announced tags).idxOf b
  normal : ∀ url ∈ urls, normalizeRelayUrl url = some url

variable {tags : List (List String)} {tag : List String} {s url : String}

theorem parseRelayList_concat (tags : List (List String)) (tag : List String) :
    parseRelayList (tags ++ [tag]) = pushUrl (parseRelayList tags) tag := by
  unfold parseRelayList
  rw [List.foldl_append]
  rfl

theorem announced_concat (tags : List (List String)) (tag : List String) :
    announced (tags ++ [tag]) = announced tags ++ (relayUrl tag).toList := by
  unfold announced
  rw [List.filterMap_append]
  cases h : relayUrl tag <;> simp [h]

theorem mem_parseRelayList (tags : List (List String)) (url : String) :
    url ∈ parseRelayList tags ↔ url ∈ announced tags := by
  induction tags using List.reverseRecOn with
  | nil => rfl
  | append_singleton tags tag ih =>
      rw [parseRelayList_concat, announced_concat, List.mem_append, ← ih]
      unfold pushUrl
      cases relayUrl tag with
      | none => simp
      | some u =>
          dsimp only
          by_cases hu : u ∈ parseRelayList tags
          · rw [if_pos hu]
            refine ⟨Or.inl, fun h => h.elim id fun h => ?_⟩
            rw [Option.toList_some, List.mem_singleton] at h
            exact h ▸ hu
          · rw [if_neg hu, List.mem_append]
            rfl

/-- Each relay comes after those first announced before it. -/
theorem parseRelayList_ordered (tags : List (List String)) :
    (parseRelayList tags).Pairwise fun a b =>
      (announced tags).idxOf a < (announced tags).idxOf b := by
  induction tags using List.reverseRecOn with
  | nil => exact List.Pairwise.nil
  | append_singleton tags tag ih =>
      rw [parseRelayList_concat, announced_concat]
      -- The relays announced before keep their places.
      have kept : ∀ u ∈ parseRelayList tags,
          (announced tags ++ (relayUrl tag).toList).idxOf u = (announced tags).idxOf u :=
        fun u hu => List.idxOf_append_of_mem ((mem_parseRelayList tags u).mp hu)
      have before : (parseRelayList tags).Pairwise fun a b =>
          (announced tags ++ (relayUrl tag).toList).idxOf a <
            (announced tags ++ (relayUrl tag).toList).idxOf b := by
        refine ih.imp_of_mem fun {a b} ha hb hlt => ?_
        rw [kept a ha, kept b hb]
        exact hlt
      unfold pushUrl
      cases hurl : relayUrl tag with
      | none =>
          rw [hurl] at before
          exact before
      | some u =>
          dsimp only
          rw [hurl] at before kept
          by_cases hu : u ∈ parseRelayList tags
          · rw [if_pos hu]
            exact before
          · rw [if_neg hu]
            refine List.pairwise_append.mpr
              ⟨before, List.pairwise_singleton _ u, fun a ha b hb => ?_⟩
            obtain rfl := List.mem_singleton.mp hb
            have hnew : b ∉ announced tags := fun h => hu ((mem_parseRelayList tags b).mpr h)
            have hold := List.idxOf_lt_length_of_mem ((mem_parseRelayList tags a).mp ha)
            rw [kept a ha, List.idxOf_append_of_notMem hnew]
            omega

theorem normalizeRelayUrl_stable_iff (h : normalizeRelayUrl s = some url) :
    normalizeRelayUrl url = some url ↔ ¬SpaceBeforeSlashes s.toList := by
  obtain ⟨u, hu, rfl⟩ := Option.map_eq_some_iff.mp h
  rw [← normalized_stable_iff hu]
  unfold normalizeRelayUrl
  rw [String.toList_ofList]
  constructor
  · intro hstable
    obtain ⟨v, hv, heq⟩ := Option.map_eq_some_iff.mp hstable
    rw [hv, String.ofList_injective heq]
  · intro hstable
    rw [hstable]
    rfl

/-- **Normalising is a closure exactly where no white space stands before the slashes it
strips**: the result of a URL is its own, and the entries of a list are, distinct as they are and
in the order of their first announcements. -/
theorem relay_urls_stable_iff (s : String) (tags : List (List String)) :
    (∀ url, normalizeRelayUrl s = some url →
      (normalizeRelayUrl url = some url ↔ ¬SpaceBeforeSlashes s.toList)) ∧
    (ListRight tags (parseRelayList tags) ↔
      ∀ tag ∈ tags, tag.head? = some "r" → ∀ s ∈ tag[1]?, (normalizeRelayUrl s).isSome = true →
        ¬SpaceBeforeSlashes s.toList) := by
  refine ⟨fun url h => normalizeRelayUrl_stable_iff h, ?_, fun h => ?_⟩
  · intro h tag htag hr s hs hsome
    obtain ⟨url, hurl⟩ := Option.isSome_iff_exists.mp hsome
    have hrelay : relayUrl tag = some url := by
      unfold relayUrl
      rw [if_pos hr, hs]
      exact hurl
    have hmem : url ∈ parseRelayList tags :=
      (mem_parseRelayList tags url).mpr (List.mem_filterMap.mpr ⟨tag, htag, hrelay⟩)
    exact (normalizeRelayUrl_stable_iff hurl).mp (h.normal url hmem)
  · have hordered := parseRelayList_ordered tags
    refine ⟨mem_parseRelayList tags, hordered.imp fun hlt heq => ?_, hordered, fun url hurl => ?_⟩
    · rw [heq] at hlt
      exact Nat.lt_irrefl _ hlt
    · obtain ⟨tag, htag, hrelay⟩ := List.mem_filterMap.mp ((mem_parseRelayList tags url).mp hurl)
      unfold relayUrl at hrelay
      split at hrelay
      · next hr =>
        obtain ⟨s, hs, hnorm⟩ := Option.bind_eq_some_iff.mp hrelay
        have hsome : (normalizeRelayUrl s).isSome = true := by rw [hnorm]; rfl
        exact (normalizeRelayUrl_stable_iff hnorm).mpr (h tag htag hr s hs hsome)
      · cases hrelay

/-- **A slash behind a space**: the first result is normalised further, and a list that announces
both spellings has the relay twice. -/
theorem space_before_slash_not_normal :
    normalizeRelayUrl "wss://nos.lol /" = some "wss://nos.lol " ∧
      normalizeRelayUrl "wss://nos.lol " = some "wss://nos.lol" ∧
      parseRelayList [["r", "wss://nos.lol /"], ["r", "wss://nos.lol"]] =
        ["wss://nos.lol ", "wss://nos.lol"] := by
  refine ⟨?_, ?_, ?_⟩ <;> decide

end MostroApp.RelayList
