import MostroApp.Lib.Text
import Mathlib.Algebra.Group.Nat.Defs
import Mathlib.Algebra.Group.Int.Defs

set_option autoImplicit false

/-! # Lightning payment destinations (`api/invoice.rs`)

The add-invoice screen, `send_invoice` and the wallet payer ask one classifier what the user's input
is. What goes out is not the input: the scheme and the white space around it are gone, and an
address is in lower case. Every reader still reads it as the input was read (`one_answer`).

The BOLT11 decoder is a parameter.
-/

namespace MostroApp.Invoice

open Text

/-! ## What an input is -/

/-- The `lightning:` URI scheme. -/
def uriScheme : List Char := "lightning:".toList

def bolt11Prefixes : List (List Char) := ["lnbc".toList, "lntb".toList, "lnsb".toList]

inductive Currency where
  | bitcoin
  | bitcoinTestnet
  | regtest
  | signet
  | simnet
  deriving DecidableEq, Repr

def lndNetworkName : Currency → List Char
  | .bitcoin => "mainnet".toList
  | .bitcoinTestnet => "testnet".toList
  | .regtest => "regtest".toList
  | .signet => "signet".toList
  | .simnet => "simnet".toList

/-- What the decoder tells of an invoice: seconds since the epoch, and the amount unless it is left
open. -/
structure Bolt11Invoice where
  durationSinceEpoch : Nat
  expiryTime : Nat
  amountMilliSatoshis : Option Nat := none
  currency : Currency := .bitcoin
  deriving DecidableEq, Repr

structure Bolt11Summary where
  amountMsat : Option Nat
  expiresAt : Int
  network : List Char
  deriving DecidableEq, Repr

inductive PaymentDestination where
  | empty
  | bolt11 (summary : Bolt11Summary)
  | malformedBolt11
  | lightningAddress (address : List Char)
  | unknown
  deriving DecidableEq, Repr

/-- The text without white space around it or a `lightning:` scheme. -/
def normalize (input : List Char) : List Char :=
  let trimmedInput := trimmed input
  if asciiLowered (trimmedInput.take uriScheme.length) = uriScheme then
    trimmed (trimmedInput.drop uriScheme.length)
  else trimmedInput

variable (fromStr : List Char → Option Bolt11Invoice)

/-- `summarize` and `decode_bolt11`. -/
def summarize (input : List Char) : Option Bolt11Summary :=
  (fromStr (asciiLowered (normalize input))).map fun parsed =>
    let expires : Nat := min (parsed.durationSinceEpoch + parsed.expiryTime) (2 ^ 64 - 1)
    { amountMsat := parsed.amountMilliSatoshis
      expiresAt := if expires < 2 ^ 63 then expires else 2 ^ 63 - 1
      network := lndNetworkName parsed.currency }

def userChar (c : Char) : Bool := c.isLower || c.isDigit || c ∈ ['.', '_', '+', '-']

def labelOk (label : List Char) : Bool :=
  label ≠ [] && label.head? ≠ some '-' && label.getLast? ≠ some '-' &&
    label.all fun c => c.isLower || c.isDigit || c = '-'

/-- `user@domain`, in lower case. -/
def isLightningAddress (lower : List Char) : Bool :=
  match splitOnce ['@'] lower with
  | none => false
  | some (user, domain) =>
      let labels := domain.splitOn '.'
      let tld := labels.getLastD []
      user ≠ [] && user.all userChar && 2 ≤ labels.length && labels.all labelOk &&
        2 ≤ tld.length && tld.all Char.isLower

def classify (input : List Char) : PaymentDestination :=
  let bare := normalize input
  let lower := asciiLowered bare
  if bare = [] then .empty
  else if bolt11Prefixes.any (·.isPrefixOf lower) then
    match summarize fromStr bare with
    | some summary => .bolt11 summary
    | none => .malformedBolt11
  else if isLightningAddress lower then .lightningAddress lower
  else .unknown

/-! ## The screen's verdict -/

inductive InvoiceProblem where
  | unrecognized
  | malformed
  | wrongAmount
  | expired
  | expiresTooSoon
  | wrongNetwork
  deriving DecidableEq, Repr

/-- A refusal, with the fields its copy needs. -/
structure Rejection where
  problem : InvoiceProblem
  actualMsat : Option Nat := none
  expectedSats : Option Nat := none
  invoiceNetwork : Option (List Char) := none
  nodeNetwork : Option (List Char) := none
  minRemainingSecs : Option Nat := none
  deriving DecidableEq, Repr

inductive InvoiceVerdict where
  | empty
  | unverified
  | address
  | valid (sats expiresAt : Nat)
  | rejected (r : Rejection)
  deriving DecidableEq, Repr

/-- LND names testnet generations, BOLT11 tells them all `lntb`. -/
def family (name : List Char) : List Char :=
  let lower := asciiLowered (trimmed name)
  if "testnet".toList.isPrefixOf lower then "testnet".toList else lower

def networkMatches (invoiceNetwork : List Char) (nodeNetworks : List (List Char)) : Bool :=
  nodeNetworks.any (family · = family invoiceNetwork)

/-- `i64::saturating_sub`, where the difference is positive. -/
def remainingSecs (expiresAt now : Int) : Nat := (min (expiresAt - now) (2 ^ 63 - 1)).toNat

/-- `expected.checked_mul(1_000)`. -/
def satsToMsat (expected : Nat) : Option Nat :=
  if expected * 1000 < 2 ^ 64 then some (expected * 1000) else none

def check (destination : PaymentDestination) (expectedSats : Option Nat)
    (nodeNetworks : List (List Char)) (minRemainingSecs : Option Nat) (now : Int) :
    InvoiceVerdict :=
  match destination with
  | .empty => .empty
  | .unknown => .rejected { problem := .unrecognized }
  | .malformedBolt11 => .rejected { problem := .malformed }
  | .lightningAddress _ => .address
  | .bolt11 summary =>
      if nodeNetworks ≠ [] ∧ networkMatches summary.network nodeNetworks = false then
        .rejected { problem := .wrongNetwork, invoiceNetwork := some summary.network,
                    nodeNetwork := nodeNetworks.head?.map trimmed }
      else if summary.expiresAt ≤ now then .rejected { problem := .expired }
      else if minRemainingSecs.any (remainingSecs summary.expiresAt now < ·) then
        .rejected { problem := .expiresTooSoon, minRemainingSecs := minRemainingSecs }
      else
        match summary.amountMsat, expectedSats with
        | some actual, some expected =>
            if some actual ≠ satsToMsat expected then
              .rejected { problem := .wrongAmount, actualMsat := some actual,
                          expectedSats := some expected }
            else .valid expected summary.expiresAt.toNat
        | _, _ => .unverified

/-- `check_buyer_invoice`. -/
def checkBuyerInvoice (input : List Char) (expectedSats : Option Nat)
    (nodeNetworks : List (List Char)) (minRemainingSecs : Option Nat) (now : Int) :
    InvoiceVerdict :=
  check (classify fromStr input) expectedSats nodeNetworks minRemainingSecs now

/-- Whether the screen lets the buyer submit on the verdict. -/
def InvoiceVerdict.allowsSubmit : InvoiceVerdict → Bool
  | .unverified | .address | .valid .. => true
  | .empty | .rejected _ => false

/-! ## What goes out -/

/-- `resolve_add_invoice_destination`: what `send_invoice` publishes, or `InvalidInvoice`. -/
def resolveAddInvoiceDestination (input : List Char) (amountSats : Nat) :
    Option (List Char × Option Nat) :=
  match classify fromStr input with
  | .bolt11 _ => some (normalize input, none)
  | .lightningAddress address => some (address, if 0 < amountSats then some amountSats else none)
  | .empty | .malformedBolt11 | .unknown => none

/-- What `pay_invoice` hands to the wallet, or `InvoiceInvalid`. -/
def payInvoice (input : List Char) : Option (List Char) :=
  match classify fromStr input with
  | .bolt11 _ => some (normalize input)
  | _ => none

/-! ## Normal texts -/

variable {fromStr} {input s : List Char}

/-- A text that begins with the scheme, in any case. -/
def Schemed (s : List Char) : Prop := uriScheme <+: asciiLowered s

theorem schemed_iff : Schemed s ↔ asciiLowered (s.take uriScheme.length) = uriScheme := by
  unfold Schemed asciiLowered
  rw [List.map_take]
  constructor
  · exact fun h => (List.prefix_iff_eq_take.mp h).symm
  · exact fun h => h ▸ List.take_prefix _ _

theorem bare_normalize (input : List Char) : Bare (normalize input) := by
  unfold normalize
  dsimp only
  split
  · exact bare_trimmed _
  · exact bare_trimmed _

theorem normalize_eq_self (hbare : Bare s) (hs : ¬ Schemed s) : normalize s = s := by
  unfold normalize
  rw [trimmed_eq_self hbare]
  exact if_neg fun h => hs (schemed_iff.mpr h)

/-- No invoice begins with the scheme. -/
theorem not_schemed_of_bolt11 (h : bolt11Prefixes.any (·.isPrefixOf (asciiLowered s)) = true) :
    ¬ Schemed s := by
  intro hs
  obtain ⟨p, hp, hbegins⟩ := List.any_eq_true.mp h
  have hlength : ∀ p ∈ bolt11Prefixes, p.length ≤ uriScheme.length := by decide
  have hnone : ∀ p ∈ bolt11Prefixes, ¬ p <+: uriScheme := by decide
  exact hnone p hp
    (List.prefix_of_prefix_length_le (List.isPrefixOf_iff_prefix.mp hbegins) hs (hlength p hp))

/-- No address begins with the scheme: its user has no colon. -/
theorem not_schemed_of_address (h : isLightningAddress (asciiLowered s) = true) : ¬ Schemed s := by
  intro hs
  unfold isLightningAddress at h
  split at h
  · cases h
  · next user domain hsplit =>
    have hwhole := splitOnce_eq_some hsplit
    have huser : user.all userChar = true := by
      simp only [Bool.and_eq_true] at h
      exact h.1.1.1.1.2
    have huserFirst : user ++ ['@'] <+: asciiLowered s := ⟨domain, hwhole.symm⟩
    rcases List.prefix_or_prefix_of_prefix huserFirst hs with hshort | hlong
    · -- the scheme has no `@`
      have hat : '@' ∈ uriScheme := hshort.subset (by simp)
      revert hat
      decide
    · have hcolon : ':' ∈ user := by
        have := hlong.subset (show ':' ∈ uriScheme by decide)
        simpa using this
      exact absurd (List.all_eq_true.mp huser ':' hcolon) (by decide)

/-! ## One answer -/

variable {summary : Bolt11Summary} {address dest : List Char} {amt : Option Nat} {amountSats : Nat}

theorem classify_eq_bolt11 (h : classify fromStr input = .bolt11 summary) :
    bolt11Prefixes.any (·.isPrefixOf (asciiLowered (normalize input))) = true ∧
      summarize fromStr (normalize input) = some summary := by
  unfold classify at h
  dsimp only at h
  split at h
  · cases h
  · split at h
    · next hbegins =>
      refine ⟨hbegins, ?_⟩
      split at h
      · next hsummary => rw [hsummary, PaymentDestination.bolt11.inj h]
      · cases h
    · split at h <;> cases h

theorem classify_eq_address (h : classify fromStr input = .lightningAddress address) :
    address = asciiLowered (normalize input) ∧ isLightningAddress address = true ∧
      normalize input ≠ [] ∧ bolt11Prefixes.any (·.isPrefixOf address) = false := by
  unfold classify at h
  dsimp only at h
  split at h
  · cases h
  · next hne =>
    split at h
    · split at h <;> cases h
    · next hbegins =>
      split at h
      · next haddress =>
        obtain rfl := PaymentDestination.lightningAddress.inj h
        exact ⟨rfl, haddress, hne, Bool.eq_false_iff.mpr hbegins⟩
      · cases h

/-- An input is what its normal form is, where that is normal. -/
theorem classify_normalize (h : normalize (normalize input) = normalize input) :
    classify fromStr (normalize input) = classify fromStr input := by
  unfold classify
  rw [h]

theorem normalize_of_bolt11 (h : classify fromStr input = .bolt11 summary) :
    normalize (normalize input) = normalize input :=
  normalize_eq_self (bare_normalize input) (not_schemed_of_bolt11 (classify_eq_bolt11 h).1)

/-- An address in lower case is normal, and is itself. -/
theorem classify_lowered (h : classify fromStr input = .lightningAddress address) :
    normalize address = address ∧ classify fromStr address = .lightningAddress address := by
  obtain ⟨rfl, haddress, hne, hbegins⟩ := classify_eq_address h
  have hlower := asciiLowered_idem (normalize input)
  have hnormal : normalize (asciiLowered (normalize input)) = asciiLowered (normalize input) := by
    refine normalize_eq_self (bare_asciiLowered (bare_normalize input)) ?_
    exact not_schemed_of_address (by rw [hlower]; exact haddress)
  have hne' : asciiLowered (normalize input) ≠ [] := fun hnil => hne (List.map_eq_nil_iff.mp hnil)
  refine ⟨hnormal, ?_⟩
  unfold classify
  simp only [hnormal, hlower, hne', hbegins, haddress, if_false, if_true, Bool.false_eq_true]

/-- What is published is normal, is what the input was, and would be published again. -/
theorem published_reads_as_judged
    (h : resolveAddInvoiceDestination fromStr input amountSats = some (dest, amt)) :
    normalize dest = dest ∧ classify fromStr dest = classify fromStr input ∧
      resolveAddInvoiceDestination fromStr dest amountSats = some (dest, amt) := by
  unfold resolveAddInvoiceDestination at h
  split at h
  · next summary hc =>
    obtain ⟨rfl, rfl⟩ := Prod.mk.inj (Option.some.inj h)
    have hnormal := normalize_of_bolt11 hc
    have hsame : classify fromStr (normalize input) = classify fromStr input :=
      classify_normalize hnormal
    refine ⟨hnormal, hsame, ?_⟩
    unfold resolveAddInvoiceDestination
    rw [hsame, hc, hnormal]
  · next address hc =>
    obtain ⟨rfl, rfl⟩ := Prod.mk.inj (Option.some.inj h)
    obtain ⟨hnormal, hsame⟩ := classify_lowered hc
    refine ⟨hnormal, hsame.trans hc.symm, ?_⟩
    unfold resolveAddInvoiceDestination
    rw [hsame]
  · cases h
  · cases h
  · cases h

/-- A text the decoder accepts begins like an invoice. -/
def Decodes (fromStr : List Char → Option Bolt11Invoice) : Prop :=
  ∀ text invoice, fromStr text = some invoice → bolt11Prefixes.any (·.isPrefixOf text) = true

/-- What decodes is an invoice to the classifier, and the other way around. -/
theorem summarize_iff_classify (hd : Decodes fromStr) :
    summarize fromStr input = some summary ↔ classify fromStr input = .bolt11 summary := by
  constructor
  · intro h
    obtain ⟨invoice, hparse, hsummary⟩ := Option.map_eq_some_iff.mp h
    have hbegins := hd _ _ hparse
    have hnormal := normalize_eq_self (bare_normalize input) (not_schemed_of_bolt11 hbegins)
    have hne : normalize input ≠ [] := by
      intro hnil
      rw [hnil] at hbegins
      exact absurd hbegins (by decide)
    have hagain : summarize fromStr (normalize input) = some summary := by
      unfold summarize at h ⊢
      rwa [hnormal]
    unfold classify
    simp only [hne, hbegins, hagain, if_false, if_true]
  · intro h
    have hagain := (classify_eq_bolt11 h).2
    unfold summarize at hagain ⊢
    rwa [normalize_of_bolt11 h] at hagain

/-- `send_invoice` refuses what the screen lets through for no trade, node or time. -/
theorem resolve_none_iff :
    resolveAddInvoiceDestination fromStr input amountSats = none ↔
      ∀ expectedSats nodeNetworks minRemainingSecs now,
        (checkBuyerInvoice fromStr input expectedSats nodeNetworks minRemainingSecs
          now).allowsSubmit = false := by
  unfold resolveAddInvoiceDestination checkBuyerInvoice
  cases classify fromStr input with
  | empty | malformedBolt11 | unknown => exact ⟨fun _ _ _ _ _ => rfl, fun _ => rfl⟩
  | lightningAddress address =>
      exact ⟨fun h => (by cases h), fun h => absurd (h none [] none 0) nofun⟩
  | bolt11 summary =>
      refine ⟨fun h => (by cases h), fun h => absurd (h none [] none (summary.expiresAt - 1)) ?_⟩
      have hlive : ¬ summary.expiresAt ≤ summary.expiresAt - 1 := by omega
      simp [check, hlive, InvoiceVerdict.allowsSubmit]

/-- A decoded invoice does not expire before the epoch. -/
theorem expiresAt_nonneg (h : classify fromStr input = .bolt11 summary) :
    0 ≤ summary.expiresAt := by
  obtain ⟨invoice, -, rfl⟩ := Option.map_eq_some_iff.mp (classify_eq_bolt11 h).2
  dsimp only
  split <;> omega

/-- An invoice that was valid is until its lifetime falls to what the node demands. -/
theorem valid_until {expectedSats minRemainingSecs : Option Nat} {nodeNetworks : List (List Char)}
    {sats expiresAt : Nat} {asked now : Int}
    (h : checkBuyerInvoice fromStr input expectedSats nodeNetworks minRemainingSecs asked =
      .valid sats expiresAt)
    (hnow : now < (expiresAt : Int) - (minRemainingSecs.getD 0 : Nat)) :
    checkBuyerInvoice fromStr input expectedSats nodeNetworks minRemainingSecs now =
      .valid sats expiresAt := by
  unfold checkBuyerInvoice at h ⊢
  cases hc : classify fromStr input with
  | empty | unknown | malformedBolt11 | lightningAddress =>
      rw [hc] at h
      cases h
  | bolt11 summary =>
      have hnonneg := expiresAt_nonneg hc
      rw [hc] at h
      unfold check at h ⊢
      dsimp only at h ⊢
      split at h
      · cases h
      · next hnetwork =>
        split at h
        · cases h
        · next hlive =>
          split at h
          · cases h
          · next hsoon =>
            have hexpires : expiresAt = summary.expiresAt.toNat := by
              split at h
              · split at h
                · cases h
                · exact (InvoiceVerdict.valid.inj h).2.symm
              · cases h
            have hlater : ¬ summary.expiresAt ≤ now := by omega
            -- what the node demanded then fits what is left now
            have hwindow : ¬ minRemainingSecs.any (remainingSecs summary.expiresAt now < ·) := by
              cases minRemainingSecs with
              | none => exact Bool.false_ne_true
              | some least =>
                  simp only [Option.any_some, Option.getD_some, decide_eq_true_eq, not_lt] at *
                  unfold remainingSecs at *
                  omega
            rwa [if_neg hnetwork, if_neg hlater, if_neg hwindow]

/-- **Three callers, one answer.** What `send_invoice` publishes is read by every caller as the
input was; it refuses exactly what the screen never lets through; and the wallet is handed exactly
what `send_invoice` publishes where the input decodes. -/
theorem one_answer (hd : Decodes fromStr) (input : List Char) (amountSats : Nat) :
    (∀ dest amt, resolveAddInvoiceDestination fromStr input amountSats = some (dest, amt) →
      normalize dest = dest ∧ classify fromStr dest = classify fromStr input ∧
        resolveAddInvoiceDestination fromStr dest amountSats = some (dest, amt)) ∧
    (resolveAddInvoiceDestination fromStr input amountSats = none ↔
      ∀ expectedSats nodeNetworks minRemainingSecs now,
        (checkBuyerInvoice fromStr input expectedSats nodeNetworks minRemainingSecs
          now).allowsSubmit = false) ∧
    ∀ text, payInvoice fromStr input = some text ↔
      resolveAddInvoiceDestination fromStr input amountSats = some (text, none) ∧
        (summarize fromStr input).isSome = true := by
  refine ⟨fun dest amt h => published_reads_as_judged h, resolve_none_iff, fun text => ?_⟩
  have hiff := @summarize_iff_classify fromStr input
  unfold payInvoice resolveAddInvoiceDestination
  cases hc : classify fromStr input with
  | bolt11 summary =>
      have hsome := (hiff hd).mpr hc
      simp [hsome]
  | empty | malformedBolt11 | unknown => simp
  | lightningAddress address =>
      cases hs : summarize fromStr input with
      | none => simp
      | some summary => exact absurd (hc.symm.trans ((hiff hd).mp hs)) (by simp)

/-- A decoder of one invoice, with the scheme and the case a scanned code gives it. -/
def scannedDecoder (text : List Char) : Option Bolt11Invoice :=
  if text = "lnbc2500u1pvjluez".toList then
    some { durationSinceEpoch := 1496314658, expiryTime := 60
           amountMilliSatoshis := some 250000000 }
  else none

theorem one_answer_scanned :
    resolveAddInvoiceDestination scannedDecoder " LIGHTNING:LNBC2500U1PVJLUEZ ".toList 1 =
        some ("LNBC2500U1PVJLUEZ".toList, none) ∧
      classify scannedDecoder "LNBC2500U1PVJLUEZ".toList =
        classify scannedDecoder " LIGHTNING:LNBC2500U1PVJLUEZ ".toList := by
  have hd : Decodes scannedDecoder := by
    intro text invoice h
    unfold scannedDecoder at h
    split at h
    · next heq => rw [heq]; decide
    · cases h
  have hsent : resolveAddInvoiceDestination scannedDecoder
      " LIGHTNING:LNBC2500U1PVJLUEZ ".toList 1 = some ("LNBC2500U1PVJLUEZ".toList, none) := by
    decide
  exact ⟨hsent, ((one_answer hd _ 1).1 _ _ hsent).2.1⟩

end MostroApp.Invoice
