import MostroApp.Lib.Checked
import Mathlib.Algebra.GroupWithZero.Nat

set_option autoImplicit false

/-! # The chat envelope (`nostr/transport.rs`)

A chat message is a kind 1 event signed by the sender's trade key, encrypted under the conversation
key into a kind 14 event signed by the key that both sides derive. The outer event shows that it
belongs to the conversation, the inner one who wrote it.

Signatures, encryption, JSON and the mining of an event are the SDK's (`Crypto`).
-/

namespace MostroApp.Envelope

open Checked

/-! ## Events -/

/-- An event without its id and signature. -/
structure Unsigned where
  pubkey : String
  createdAt : Nat
  kind : Nat
  tags : List (List String)
  content : String
  deriving DecidableEq, Repr

structure Event extends Unsigned where
  id : String
  sig : String
  deriving DecidableEq, Repr

/-- What the envelope uses of `nostr_sdk`. Keys, ids and signatures are hex texts. -/
structure Crypto where
  publicKey : String → String
  /-- `EventBuilder::finalize`. -/
  finalize : String → Unsigned → Except String Event
  /-- `Event::verify`: the id is the hash of the rest and the signature is the author's. -/
  verify : Event → Except String Unit
  /-- `nip44::encrypt` to oneself, with a salt. -/
  encrypt : String → String → String → Except String String
  decrypt : String → String → Except String String
  asJson : Event → String
  fromJson : String → Except String Event
  /-- `UnsignedEvent::mine`: the nonce it settles on. -/
  mine : Unsigned → Nat → Except String Nat

/-- What is documented of it. -/
structure Crypto.Documented (C : Crypto) : Prop where
  finalize_keeps : ∀ secret u e, C.finalize secret u = .ok e → e.toUnsigned = u
  finalize_verifies : ∀ secret u e, u.pubkey = C.publicKey secret →
    C.finalize secret u = .ok e → C.verify e = .ok ()
  decrypts : ∀ secret salt text cipher, C.encrypt secret salt text = .ok cipher →
    C.decrypt secret cipher = .ok text

/-! ## The two directions -/

def maxClockSkewSecs : Nat := 60

def maxContentBytes : Nat := 64 * 1024

def maxOuterTags : Nat := 8

def textNote : Nat := 1

def privateDirectMessage : Nat := 14

/-- The outer event before it is signed, with a nonce where the node asks for work. -/
def mined (C : Crypto) (u : Unsigned) (pow : Nat) : Except String Unsigned :=
  if pow = 0 then .ok u
  else ((C.mine u pow).mapError ("outer event PoW failed: " ++ ·)).map fun nonce =>
    { u with tags := u.tags ++ [["nonce", toString nonce, toString pow]] }

/-- The tags of a built event: `EventBuilder` leaves out a `p` tag that names the signer. -/
def builtTags (signer : String) (tags : List (List String)) : List (List String) :=
  tags.filter fun tag => ¬ (tag.head? = some "p" ∧ tag[1]? = some signer)

/-- The outer and the inner event of a message sent at `now`; `unique` makes two equal messages of
one second differ. -/
def mostroWrap (C : Crypto) (senderTrade conv sign message : String) (now : Nat)
    (unique salt : String) (pow : Nat) : Except String (Event × Event) := do
  let sender := C.publicKey senderTrade
  let inner ← (C.finalize senderTrade
    ⟨sender, now, textNote, builtTags sender [["u", unique]], message⟩).mapError
      ("inner event sign failed: " ++ ·)
  let content ← (C.encrypt conv salt (C.asJson inner)).mapError ("NIP-44 encrypt failed: " ++ ·)
  require (content.utf8ByteSize ≤ maxContentBytes)
    ("MessageTooLarge: encrypted payload is " ++ toString content.utf8ByteSize ++
      " bytes, limit " ++ toString maxContentBytes)
  let signer := C.publicKey sign
  let unsigned ← mined C
    ⟨signer, now, privateDirectMessage, builtTags signer [["p", C.publicKey conv]], content⟩ pow
  let outer ← (C.finalize sign unsigned).mapError ("outer event sign failed: " ++ ·)
  return (outer, inner)

/-- The event has one `p` tag, and it is the key's. -/
def addressed (key : String) (tags : List (List String)) : Bool :=
  match tags.filter (·.head? = some "p") with
  | [tag] => tag[1]? = some key
  | _ => false

/-- `u64::saturating_add`. -/
def saturatingAdd (a b : Nat) : Nat := min (a + b) (2 ^ 64 - 1)

/-- The inner event of an outer one, or why there is none. -/
def mostroUnwrap (C : Crypto) (conv signPubkey : String) (allowedSigners : List String)
    (outer : Event) (now : Nat) : Except String Event := do
  require (outer.pubkey = signPubkey)
    "outer event is not authored by the conversation signing key"
  require (outer.kind = privateDirectMessage) "outer event is not kind 14"
  require (outer.tags.length ≤ maxOuterTags)
    ("outer event carries " ++ toString outer.tags.length ++ " tags, limit " ++
      toString maxOuterTags)
  require (addressed (C.publicKey conv) outer.tags = true)
    "outer event must carry exactly one p tag for this conversation"
  require (outer.createdAt ≤ saturatingAdd now maxClockSkewSecs)
    "outer event is dated too far in the future"
  require (outer.content.utf8ByteSize ≤ maxContentBytes)
    "encrypted payload exceeds the accepted size"
  (C.verify outer).mapError ("outer signature invalid: " ++ ·)
  let decrypted ← (C.decrypt conv outer.content).mapError ("NIP-44 decrypt failed: " ++ ·)
  let inner ← (C.fromJson decrypted).mapError ("inner event parse failed: " ++ ·)
  (C.verify inner).mapError ("inner signature invalid: " ++ ·)
  require (inner.pubkey ∈ allowedSigners)
    "inner event is signed by a key that is not a party to this order"
  require (inner.kind = textNote) "inner event is not kind 1"
  require (inner.createdAt ≤ outer.createdAt + maxClockSkewSecs ∧
    outer.createdAt ≤ inner.createdAt + maxClockSkewSecs)
    "inner and outer timestamps disagree — stale re-wrap"
  return inner

/-! ## What an opened envelope has shown -/

/-- Every check of an envelope. -/
structure Opens (C : Crypto) (conv signPubkey : String) (allowedSigners : List String)
    (outer : Event) (now : Nat) (inner : Event) : Prop where
  author : outer.pubkey = signPubkey
  kind : outer.kind = privateDirectMessage
  tags : outer.tags.length ≤ maxOuterTags
  addressed : addressed (C.publicKey conv) outer.tags = true
  notLater : outer.createdAt ≤ saturatingAdd now maxClockSkewSecs
  size : outer.content.utf8ByteSize ≤ maxContentBytes
  signed : C.verify outer = .ok ()
  decrypted : ∃ text, C.decrypt conv outer.content = .ok text ∧ C.fromJson text = .ok inner
  written : C.verify inner = .ok ()
  party : inner.pubkey ∈ allowedSigners
  note : inner.kind = textNote
  near : inner.createdAt ≤ outer.createdAt + maxClockSkewSecs ∧
    outer.createdAt ≤ inner.createdAt + maxClockSkewSecs

variable {C : Crypto} {conv signPubkey : String} {allowedSigners : List String}
  {outer inner : Event} {now : Nat}

/-- An envelope is opened exactly when it passes them all. -/
theorem mostroUnwrap_eq_ok : mostroUnwrap C conv signPubkey allowedSigners outer now = .ok inner ↔
    Opens C conv signPubkey allowedSigners outer now inner := by
  unfold mostroUnwrap
  simp only [bind_eq_ok, mapError_eq_ok, require_eq_ok, exists_const]
  constructor
  · rintro ⟨h₁, h₂, h₃, h₄, h₅, h₆, _, h₇, text, h₈, e, h₉, _, h₁₀, h₁₁, h₁₂, h₁₃, heq⟩
    obtain rfl := Except.ok.inj heq
    exact ⟨h₁, h₂, h₃, h₄, h₅, h₆, h₇, ⟨text, h₈, h₉⟩, h₁₀, h₁₁, h₁₂, h₁₃⟩
  · rintro ⟨h₁, h₂, h₃, h₄, h₅, h₆, h₇, ⟨text, h₈, h₉⟩, h₁₀, h₁₁, h₁₂, h₁₃⟩
    exact ⟨h₁, h₂, h₃, h₄, h₅, h₆, (), h₇, text, h₈, inner, h₉, (), h₁₀, h₁₁, h₁₂, h₁₃, rfl⟩

/-! ## There and back -/

/-- What `mostro_wrap` has made. -/
structure Wraps (C : Crypto) (senderTrade conv sign message : String) (now : Nat)
    (unique : String) (outer inner : Event) : Prop where
  note : inner.toUnsigned =
    ⟨C.publicKey senderTrade, now, textNote, [["u", unique]], message⟩
  written : C.verify inner = .ok ()
  author : outer.pubkey = C.publicKey sign
  kind : outer.kind = privateDirectMessage
  time : outer.createdAt = now
  tags : ∃ nonce : List (List String), nonce.length ≤ 1 ∧
    (∀ tag ∈ nonce, tag.head? ≠ some "p") ∧
      outer.tags = builtTags (C.publicKey sign) [["p", C.publicKey conv]] ++ nonce
  sealed : C.decrypt conv outer.content = .ok (C.asJson inner)
  size : outer.content.utf8ByteSize ≤ maxContentBytes
  signed : C.verify outer = .ok ()

/-- Mining adds a nonce at most. -/
theorem mined_eq_ok {u v : Unsigned} {pow : Nat} (h : mined C u pow = .ok v) :
    ∃ nonce : List (List String), nonce.length ≤ 1 ∧ (∀ tag ∈ nonce, tag.head? ≠ some "p") ∧
      v = { u with tags := u.tags ++ nonce } := by
  unfold mined at h
  split at h
  · obtain rfl := Except.ok.inj h
    exact ⟨[], Nat.zero_le 1, by simp, by simp⟩
  · cases hmine : C.mine u pow with
    | error e =>
        rw [hmine] at h
        cases h
    | ok n =>
        rw [hmine] at h
        obtain rfl := Except.ok.inj h
        exact ⟨[["nonce", toString n, toString pow]], Nat.le_refl 1, by simp, rfl⟩

section

variable {senderTrade sign message unique salt : String} {pow : Nat}

theorem mostroWrap_wraps (hC : C.Documented)
    (h : mostroWrap C senderTrade conv sign message now unique salt pow = .ok (outer, inner)) :
    Wraps C senderTrade conv sign message now unique outer inner := by
  unfold mostroWrap at h
  simp only [bind_eq_ok, mapError_eq_ok, require_eq_ok, exists_const] at h
  obtain ⟨e, hinner, content, hcontent, hsize, u, hmined, o, houter, heq⟩ := h
  obtain ⟨rfl, rfl⟩ := Prod.mk.inj (Except.ok.inj heq)
  obtain ⟨nonce, hlen, hnonce, rfl⟩ := mined_eq_ok hmined
  have hunsigned := hC.finalize_keeps _ _ _ houter
  constructor
  · exact hC.finalize_keeps _ _ _ hinner
  · exact hC.finalize_verifies _ _ _ rfl hinner
  · rw [hunsigned]
  · rw [hunsigned]
  · rw [hunsigned]
  · exact ⟨nonce, hlen, hnonce, by rw [hunsigned]⟩
  · rw [hunsigned]
    exact hC.decrypts _ _ _ _ hcontent
  · rw [hunsigned]
    exact hsize
  · exact hC.finalize_verifies _ _ _ rfl houter

/-- The nonce is no `p` tag, so the event is addressed where the signer's key is another. -/
theorem addressed_built_iff {key signer : String} {nonce : List (List String)}
    (h : ∀ tag ∈ nonce, tag.head? ≠ some "p") :
    addressed key (builtTags signer [["p", key]] ++ nonce) = true ↔ key ≠ signer := by
  have hnone : nonce.filter (·.head? = some "p") = [] :=
    List.filter_eq_nil_iff.mpr fun tag htag => by simpa using h tag htag
  unfold addressed
  rw [List.filter_append, hnone, List.append_nil]
  by_cases hkey : key = signer
  · simp [builtTags, hkey]
  · simp [builtTags, hkey]

theorem length_builtTags_le (signer : String) (tags : List (List String)) :
    (builtTags signer tags).length ≤ tags.length :=
  List.length_filter_le _ tags

/-- **Round trip.** What is wrapped carries the message as a note under the sender's key. The other
side opens it exactly when its two keys differ, the sender is a party for it, and its clock is not
more than a minute behind the sender's. -/
theorem wrap_unwrap_iff (hC : C.Documented) (htime : now < 2 ^ 64)
    (h : mostroWrap C senderTrade conv sign message now unique salt pow = .ok (outer, inner))
    (hjson : C.fromJson (C.asJson inner) = .ok inner) (allowedSigners : List String)
    (receiver : Nat) :
    inner.kind = textNote ∧ inner.content = message ∧
      inner.pubkey = C.publicKey senderTrade ∧ inner.createdAt = now ∧
      (mostroUnwrap C conv (C.publicKey sign) allowedSigners outer receiver = .ok inner ↔
        C.publicKey conv ≠ C.publicKey sign ∧ C.publicKey senderTrade ∈ allowedSigners ∧
          now ≤ receiver + 60) := by
  have hw := mostroWrap_wraps hC h
  refine ⟨by rw [hw.note], by rw [hw.note], by rw [hw.note], by rw [hw.note], ?_⟩
  rw [mostroUnwrap_eq_ok]
  obtain ⟨nonce, hlen, hnonce, htags⟩ := hw.tags
  have hsaturates : now ≤ saturatingAdd receiver maxClockSkewSecs ↔ now ≤ receiver + 60 := by
    unfold saturatingAdd maxClockSkewSecs
    omega
  have hsender : inner.pubkey = C.publicKey senderTrade := by rw [hw.note]
  constructor
  · intro hopens
    refine ⟨(addressed_built_iff hnonce).mp (htags ▸ hopens.addressed), hsender ▸ hopens.party, ?_⟩
    exact hsaturates.mp (hw.time ▸ hopens.notLater)
  · rintro ⟨hkeys, hparty, hle⟩
    constructor
    · exact hw.author
    · exact hw.kind
    · have hbuilt := length_builtTags_le (C.publicKey sign) [["p", C.publicKey conv]]
      rw [List.length_singleton] at hbuilt
      rw [htags, List.length_append]
      unfold maxOuterTags
      omega
    · rw [htags]
      exact (addressed_built_iff hnonce).mpr hkeys
    · rw [hw.time]
      exact hsaturates.mpr hle
    · exact hw.size
    · exact hw.signed
    · exact ⟨_, hw.sealed, hjson⟩
    · exact hw.written
    · rw [hsender]
      exact hparty
    · rw [hw.note]
    · rw [hw.note, hw.time]
      exact ⟨Nat.le_add_right now _, Nat.le_add_right now _⟩

end

/-- Keys that sign with their own name and put it before what they encrypt. -/
def namedKeys : Crypto where
  publicKey key := key
  finalize key u := .ok ⟨u, "id of " ++ u.content, key⟩
  verify e := if e.sig = e.pubkey then .ok () else .error "signature is invalid"
  encrypt key _ text := .ok (String.ofList (key.toList ++ text.toList))
  decrypt key cipher := .ok (String.ofList (cipher.toList.drop key.toList.length))
  asJson e := e.content
  fromJson text := .ok ⟨⟨"alice", 100, 1, [["u", "00"]], text⟩, "id of " ++ text, "alice"⟩
  mine _ _ := .ok 7

theorem namedKeys_documented : namedKeys.Documented where
  finalize_keeps secret u e h := by
    obtain rfl := Except.ok.inj h
    rfl
  finalize_verifies secret u e hu h := by
    obtain rfl := Except.ok.inj h
    exact if_pos hu.symm
  decrypts secret salt text cipher h := by
    obtain rfl := Except.ok.inj h
    simp [namedKeys]

/-- A message under work, opened by a clock a minute behind. -/
theorem wrap_unwrap_iff_behind :
    ∃ outer inner, mostroWrap namedKeys "alice" "conv" "sign" "paid" 100 "00" "" 5 =
        .ok (outer, inner) ∧
      mostroUnwrap namedKeys "conv" "sign" ["bob", "alice"] outer 40 = .ok inner := by
  have h : mostroWrap namedKeys "alice" "conv" "sign" "paid" 100 "00" "" 5 = .ok (_, _) := rfl
  refine ⟨_, _, h, ?_⟩
  have hopens := wrap_unwrap_iff namedKeys_documented (by decide) h rfl ["bob", "alice"] 40
  exact hopens.2.2.2.2.mpr ⟨by decide, by decide, by decide⟩

end MostroApp.Envelope
