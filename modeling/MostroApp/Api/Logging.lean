import MostroApp.Lib.Utf8

set_option autoImplicit false

/-! # Scrubbing a log record (`scrub_secrets`)

Every record passes the scrubber before any sink sees it: what follows `nsec1` is replaced by a
mark. The source searches the bytes of a text and slices it at the offsets it finds; `scrubbed` says
the same of characters, from left to right. `scrub_secrets_right` has both: the slices never fail,
no key material is left behind a marker, and nothing but that is lost.
-/

namespace MostroApp.Logging

open Utf8

/-! ## The scrubber -/

/-- `MARKER`. -/
def marker : List Char := ['n', 's', 'e', 'c', '1']

def mark : List Char := "[redacted]".toList

/-- Case-insensitive marker search. -/
def findMarker (haystack : List Char) : Option Nat :=
  (windows (bytes marker).length (bytes haystack)).findIdx? fun w =>
    eqIgnoreAsciiCase w (bytes marker)

/-- The loop over `rest`, at most `fuel` rounds of it; `none` where a slice would panic. -/
def scrubLoop : Nat → List Char → List Char → Option (List Char)
  | 0, _, _ => none
  | fuel + 1, rest, out =>
      match findMarker rest with
      | none => some (out ++ rest)
      | some pos => do
          let after := pos + (bytes marker).length
          let head ← sliceTo after rest
          let tail ← sliceFrom after rest
          -- the bech32 payload: the alphanumeric run following the prefix
          let skip := (find (fun c => !c.isAlphanum) tail).getD (bytes tail).length
          let rest ← sliceFrom skip tail
          scrubLoop fuel rest (out ++ head ++ mark)

def scrubSecrets (fuel : Nat) (message : String) : Option String :=
  if findMarker message.toList = none then some message
  else (scrubLoop fuel message.toList []).map String.ofList

/-! ## From left to right -/

/-- At every marker, `inserted` comes in behind it and as many characters as `skip` says go out. -/
def atMarkers (inserted : List Char) (skip : List Char → Nat) : List Char → List Char
  | [] => []
  | c :: s =>
      if startsWith marker (c :: s) then
        (c :: s).take marker.length ++ inserted ++
          atMarkers inserted skip
            ((c :: s).drop (marker.length + skip ((c :: s).drop marker.length)))
      else c :: atMarkers inserted skip s
termination_by s => s.length
decreasing_by
  · rw [List.length_drop, List.length_cons]
    have hpos : marker.length = 5 := rfl
    omega
  · exact Nat.lt_succ_self s.length

/-- The length of the alphanumeric run at the start. -/
def runLength (s : List Char) : Nat := (s.takeWhile Char.isAlphanum).length

/-- The length of a mark at the start. -/
def markLength (s : List Char) : Nat := if mark.isPrefixOf s then mark.length else 0

/-- The text with a mark for each run that follows a marker. -/
def scrubbed (s : List Char) : List Char := atMarkers mark runLength s

/-- The text without the runs that follow markers. -/
def deleteRuns (s : List Char) : List Char := atMarkers [] runLength s

/-- The text without the mark behind each marker. -/
def deleteMarks (s : List Char) : List Char := atMarkers [] markLength s

section

variable {inserted s : List Char} {skip : List Char → Nat} {c : Char}

theorem atMarkers_nil : atMarkers inserted skip [] = [] := by rw [atMarkers]

theorem atMarkers_marker (h : startsWith marker s = true) :
    atMarkers inserted skip s = s.take marker.length ++ inserted ++
      atMarkers inserted skip (s.drop (marker.length + skip (s.drop marker.length))) := by
  cases s with
  | nil => nomatch h
  | cons c s => rw [atMarkers, if_pos h]

theorem atMarkers_cons (h : startsWith marker (c :: s) = false) :
    atMarkers inserted skip (c :: s) = c :: atMarkers inserted skip s := by
  rw [atMarkers, if_neg (by simp [h])]

theorem length_take_marker (h : startsWith marker s = true) :
    (s.take marker.length).length = marker.length := by
  have hlen := congrArg List.length (of_decide_eq_true h)
  rwa [List.length_map, List.length_map] at hlen

/-- As far as a marker reaches, the text stays. -/
theorem take_atMarkers (inserted : List Char) (skip : List Char → Nat) (s : List Char) {k : Nat}
    (hk : k ≤ marker.length) : (atMarkers inserted skip s).take k = s.take k := by
  induction s generalizing k with
  | nil => rw [atMarkers_nil]
  | cons c s ih =>
      cases h : startsWith marker (c :: s) with
      | true =>
          have hlen := length_take_marker h
          rw [atMarkers_marker h, List.append_assoc,
            List.take_append_of_le_length (by rw [hlen]; exact hk), List.take_take,
            Nat.min_eq_left hk]
      | false =>
          rw [atMarkers_cons h]
          cases k with
          | zero => rfl
          | succ k => rw [List.take_succ_cons, List.take_succ_cons, ih (Nat.le_of_succ_le hk)]

/-- So a marker stands where one stood, and nowhere else. -/
theorem startsWith_atMarkers (inserted : List Char) (skip : List Char → Nat) (s : List Char) :
    startsWith marker (atMarkers inserted skip s) = startsWith marker s := by
  unfold startsWith
  rw [take_atMarkers inserted skip s (le_refl _)]

/-! ## What is left behind a marker -/

/-- Every marker in the text is directly followed by a mark. -/
def Masked (s : List Char) : Prop :=
  ∀ u, u <:+ s → startsWith marker u = true → mark <+: u.drop marker.length

theorem masked_nil : Masked [] := by
  intro u hu h
  rw [List.suffix_nil.mp hu] at h
  nomatch h

theorem masked_cons (hc : startsWith marker (c :: s) = true → mark <+: (c :: s).drop marker.length)
    (hs : Masked s) : Masked (c :: s) := by
  intro u hu h
  rcases List.suffix_cons_iff.mp hu with rfl | hu
  · exact hc h
  · exact hs u hu h

theorem head_of_startsWith (h : startsWith marker (c :: s) = true) : c.toLower = 'n' := by
  have hmap : ((c :: s).take marker.length).map Char.toLower = marker := of_decide_eq_true h
  exact (List.cons.inj hmap).1

theorem tail_of_startsWith (h : startsWith marker (c :: s) = true) :
    ∀ d ∈ s.take 4, d.toLower ≠ 'n' := by
  have hmap : ((c :: s).take marker.length).map Char.toLower = marker := of_decide_eq_true h
  have htail : (s.take 4).map Char.toLower = ['s', 'e', 'c', '1'] := (List.cons.inj hmap).2
  intro d hd heq
  have hmem := htail ▸ List.mem_map_of_mem hd
  rw [heq] at hmem
  exact absurd hmem (by decide)

/-- No marker starts where there is no `n`. -/
theorem masked_append {l : List Char} (hl : ∀ d ∈ l, d.toLower ≠ 'n') (hs : Masked s) :
    Masked (l ++ s) := by
  induction l with
  | nil => exact hs
  | cons d l ih =>
      refine masked_cons (fun h => ?_) (ih fun e he => hl e (List.mem_cons_of_mem d he))
      exact absurd (head_of_startsWith h) (hl d List.mem_cons_self)

theorem mark_no_marker : ∀ d ∈ mark, d.toLower ≠ 'n' := by
  have hall : mark.all (fun d => d.toLower ≠ 'n') = true := by decide
  exact fun d hd => of_decide_eq_true (List.all_eq_true.mp hall d hd)

/-- **Every marker of the output has its mark**: there is none but those the scrubber has met. -/
theorem masked_scrubbed (s : List Char) : Masked (scrubbed s) := by
  unfold scrubbed
  fun_induction atMarkers mark runLength s with
  | case1 => exact masked_nil
  | case2 c s h ih =>
      have hsplit : (c :: s).take marker.length ++ mark = c :: (s.take 4 ++ mark) := rfl
      rw [hsplit, List.cons_append]
      refine masked_cons (fun _ => ?_) ?_
      · have hfour : (s.take 4).length = 4 := Nat.succ.inj (length_take_marker h)
        show mark <+: ((s.take 4 ++ mark) ++ _).drop 4
        rw [List.append_assoc, List.drop_left' hfour]
        exact List.prefix_append mark _
      · refine masked_append (fun d hd => ?_) ih
        rcases List.mem_append.mp hd with hd | hd
        · exact tail_of_startsWith h d hd
        · exact mark_no_marker d hd
  | case3 c s h ih =>
      -- What the marker would consist of is as it was in the input.
      refine masked_cons (fun hout => absurd ?_ h) ih
      have hsame := startsWith_atMarkers mark runLength (c :: s)
      rw [atMarkers_cons (by simpa using h), hout] at hsame
      exact hsame.symm

theorem markLength_mark (s : List Char) : markLength (mark ++ s) = mark.length :=
  if_pos (List.isPrefixOf_iff_prefix.mpr (List.prefix_append mark s))

/-- The deletion keeps a marker and drops the mark behind it. -/
theorem deleteMarks_marker {front : List Char} (hlen : front.length = marker.length)
    (h : startsWith marker (front ++ (mark ++ s)) = true) :
    deleteMarks (front ++ (mark ++ s)) = front ++ deleteMarks s := by
  have hafter : (front ++ (mark ++ s)).drop marker.length = mark ++ s := List.drop_left' hlen
  rw [deleteMarks, atMarkers_marker h, ← List.drop_drop, hafter, markLength_mark, List.drop_left,
    List.take_left' hlen, List.append_nil]
  rfl

/-- **Only the runs are lost.** -/
theorem deleteMarks_scrubbed (s : List Char) : deleteMarks (scrubbed s) = deleteRuns s := by
  unfold scrubbed deleteRuns
  fun_induction atMarkers mark runLength s with
  | case1 => rw [deleteMarks, atMarkers_nil, atMarkers_nil]
  | case2 c s h ih =>
      have hout := startsWith_atMarkers mark runLength (c :: s)
      rw [atMarkers_marker h, h, List.append_assoc] at hout
      rw [List.append_assoc, deleteMarks_marker (length_take_marker h) hout, atMarkers_marker h,
        List.append_nil, ← ih]
  | case3 c s h ih =>
      have hno : startsWith marker (c :: s) = false := by simpa using h
      have hsame := startsWith_atMarkers mark runLength (c :: s)
      rw [atMarkers_cons hno] at hsame
      rw [atMarkers_cons hno, deleteMarks, atMarkers_cons (hsame.trans hno), ← ih]
      rfl

theorem drop_runLength (s : List Char) :
    s.drop (runLength s) = s.dropWhile Char.isAlphanum := by
  calc s.drop (runLength s)
      = (s.takeWhile Char.isAlphanum ++ s.dropWhile Char.isAlphanum).drop (runLength s) := by
        rw [List.takeWhile_append_dropWhile]
    _ = s.dropWhile Char.isAlphanum := List.drop_left

/-- A marker, the mark, and what is left when the run has gone. -/
theorem scrubbed_marker {found : List Char} (hlen : found.length = marker.length)
    (h : startsWith marker (found ++ s) = true) :
    scrubbed (found ++ s) = found ++ (mark ++ scrubbed (s.dropWhile Char.isAlphanum)) := by
  have hafter : (found ++ s).drop marker.length = s := List.drop_left' hlen
  rw [scrubbed, atMarkers_marker h, ← List.drop_drop, hafter, drop_runLength, List.take_left' hlen,
    List.append_assoc]
  rfl

/-! ## The search and the slices -/

theorem marker_ascii : ∀ d ∈ marker, d.toNat < 128 := by
  have hall : marker.all (fun d => d.toNat < 128) = true := by decide
  exact fun d hd => of_decide_eq_true (List.all_eq_true.mp hall d hd)

theorem findMarker_cons (c : Char) (s : List Char) :
    findMarker (c :: s) =
      if startsWith marker (c :: s) then some 0 else (findMarker s).map (· + c.utf8Size) :=
  search_cons marker_ascii c s

/-- The search stops at the first marker, at the byte offset of what stands before it. -/
theorem findMarker_cases (s : List Char) :
    (findMarker s = none ∧ scrubbed s = s) ∨
    ∃ front back, s = front ++ back ∧ startsWith marker back = true ∧
      findMarker s = some (bytes front).length ∧ scrubbed s = front ++ scrubbed back := by
  induction s with
  | nil => exact Or.inl ⟨rfl, atMarkers_nil⟩
  | cons c s ih =>
      rw [findMarker_cons]
      cases h : startsWith marker (c :: s) with
      | true => exact Or.inr ⟨[], c :: s, rfl, h, rfl, rfl⟩
      | false =>
          have hcons : scrubbed (c :: s) = c :: scrubbed s := atMarkers_cons h
          rw [if_neg Bool.false_ne_true, hcons]
          rcases ih with ⟨hnone, hsame⟩ | ⟨front, back, rfl, hback, hfound, hsame⟩
          · rw [hnone, hsame]
            exact Or.inl ⟨rfl, rfl⟩
          · rw [hfound, hsame]
            refine Or.inr ⟨c :: front, back, rfl, hback, ?_, rfl⟩
            rw [length_bytes_cons, Option.map_some, Nat.add_comm]

/-- **The loop slices at boundaries only**, and a round for each character is enough. -/
theorem scrubLoop_eq (fuel : Nat) {rest : List Char} (out : List Char)
    (hfuel : rest.length < fuel) : scrubLoop fuel rest out = some (out ++ scrubbed rest) := by
  induction fuel generalizing rest out with
  | zero => exact absurd hfuel (Nat.not_lt_zero _)
  | succ fuel ih =>
      unfold scrubLoop
      rcases findMarker_cases rest with ⟨hnone, hsame⟩ | ⟨front, back, rfl, hback, hfound, hsame⟩
      · rw [hnone, hsame]
      · -- The marker is in ASCII, so its end is a boundary, and so is the run's.
        have hmarker : (bytes (back.take marker.length)).length = (bytes marker).length :=
          length_bytes_take marker_ascii hback
        obtain ⟨found, tail, rfl, hfoundlen⟩ : ∃ found tail, back = found ++ tail ∧
            found.length = marker.length :=
          ⟨_, _, (List.take_append_drop marker.length back).symm, length_take_marker hback⟩
        rw [List.take_left' hfoundlen] at hmarker
        have hafter : (bytes front).length + (bytes marker).length =
            (bytes (front ++ found)).length := by
          rw [bytes_append, List.length_append, hmarker]
        rw [hfound, hsame]
        dsimp only
        rw [hafter, ← List.append_assoc, sliceTo_append, sliceFrom_append]
        have hskip : sliceFrom ((find (fun c => !c.isAlphanum) tail).getD (bytes tail).length)
            tail = some (tail.dropWhile Char.isAlphanum) := by
          have hrun := sliceFrom_append (s := tail.takeWhile Char.isAlphanum)
            (t := tail.dropWhile Char.isAlphanum)
          rw [List.takeWhile_append_dropWhile] at hrun
          rw [find_getD]
          simpa only [Bool.not_not] using hrun
        have hshort : (tail.dropWhile Char.isAlphanum).length < fuel := by
          have hle := (List.dropWhile_sublist Char.isAlphanum (l := tail)).length_le
          rw [List.length_append, List.length_append, hfoundlen] at hfuel
          have hpos : marker.length = 5 := rfl
          omega
        show (sliceFrom _ tail).bind (fun rest =>
          scrubLoop fuel rest (out ++ (front ++ found) ++ mark)) = _
        rw [hskip, Option.bind_some, ih _ hshort, scrubbed_marker hfoundlen hback]
        simp only [List.append_assoc]

end

/-- What stands behind a marker, wherever it is. -/
theorem Masked.follows {front found back : List Char} (h : Masked (front ++ found ++ back))
    (hfound : found.map Char.toLower = marker) : mark <+: back := by
  have hlen : found.length = marker.length := by rw [← hfound, List.length_map]
  have hsuffix : found ++ back <:+ front ++ found ++ back := ⟨front, (List.append_assoc ..).symm⟩
  have hstarts : startsWith marker (found ++ back) = true := by
    unfold startsWith
    rw [List.take_left' hlen]
    exact decide_eq_true (hfound.trans (by decide))
  have hmark := h _ hsuffix hstarts
  rwa [List.drop_left' hlen] at hmark

/-- A mark does not start with a letter or digit. -/
theorem not_alphanum_of_mark {c : Char} {back : List Char} (h : mark <+: c :: back) :
    c.isAlphanum = false := by
  have hfirst : c = '[' := (List.cons_prefix_cons.mp h).1.symm
  rw [hfirst]
  rfl

theorem scrubSecrets_eq (message : String) {fuel : Nat} (hfuel : message.toList.length < fuel) :
    scrubSecrets fuel message = some (String.ofList (scrubbed message.toList)) := by
  unfold scrubSecrets
  rcases findMarker_cases message.toList with ⟨hnone, hsame⟩ | ⟨front, -, -, -, hfound, -⟩
  · rw [if_pos hnone, hsame, String.ofList_toList]
  · rw [if_neg (by simp [hfound]), scrubLoop_eq fuel [] hfuel]
    rfl

/-- **Scrubbing leaves no secret.** Whatever the message, the scrubber ends and never slices off a
boundary; in its output no ASCII letter or digit directly follows a marker, in any case, for each is
followed by a mark; and the output without these marks is the message without the runs that
follow its markers. -/
theorem scrub_secrets_right (message : String) :
    ∃ out : String,
      (∀ fuel, message.toList.length < fuel → scrubSecrets fuel message = some out) ∧
      (∀ front found c back, out.toList = front ++ found ++ c :: back →
        found.map Char.toLower = marker → c.isAlphanum = false) ∧
      (∀ front found back, out.toList = front ++ found ++ back →
        found.map Char.toLower = marker → mark <+: back) ∧
      deleteMarks out.toList = deleteRuns message.toList := by
  have hmasked := masked_scrubbed message.toList
  have htext : (String.ofList (scrubbed message.toList)).toList = scrubbed message.toList :=
    String.toList_ofList
  refine ⟨String.ofList (scrubbed message.toList), fun fuel => scrubSecrets_eq message, ?_, ?_, ?_⟩
  · rw [htext]
    intro front found c back hout hfound
    exact not_alphanum_of_mark ((hout ▸ hmasked).follows hfound)
  · rw [htext]
    intro front found back hout hfound
    exact (hout ▸ hmasked).follows hfound
  · rw [htext]
    exact deleteMarks_scrubbed message.toList

example : scrubSecrets 30 "a nsec1NSEC1b→ nSeC1é" = some "a nsec1[redacted]→ nSeC1[redacted]é" := by
  decide

end MostroApp.Logging
