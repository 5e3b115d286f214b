import Openlia.Browser.StableJson
import Openlia.Finance.Decimals
import Openlia.Lib.Separators
import Openlia.Lib.Tally

/-! # Posting flows

The regular postings of a commodity are drawn as links between accounts and groups of
transactions. Transactions with the same accounts on the same sides share a group.
-/

namespace Openlia.Finance

open Lib

/-! ## Transactions -/

structure Amount where
  acommodity : Text
  decimalMantissa : Int
  decimalPlaces : Nat
  /-- A cost that is not falsy. -/
  acost : Bool
  mantissa_lt : decimalMantissa.natAbs < 10 ^ 220
  places_le : decimalPlaces ≤ 36

structure Posting where
  paccount : Text
  ptype : String
  pamount : List Amount

structure Transaction where
  tpostings : List Posting

/-! ## The graph -/

inductive NodeId
  | credit (account : Text)
  | debit (account : Text)
  | transaction (n : Nat)
  deriving DecidableEq

/-- The id as text. -/
def NodeId.text : NodeId → Text
  | .credit account => "from:".toList ++ account
  | .debit account => "to:".toList ++ account
  | .transaction n => "transaction:".toList ++ Nat.toDigits 10 n

def NodeId.label : NodeId → Text
  | .credit account => "Credit: ".toList ++ account
  | .debit account => "Debit: ".toList ++ account
  | .transaction n => "Posting group ".toList ++ Nat.toDigits 10 n

structure Link where
  source : NodeId
  target : NodeId
  exact : Text
  deriving DecidableEq

structure Node where
  id : NodeId
  label : Text
  deriving DecidableEq

structure SankeyData where
  nodes : List Node
  links : List Link

/-- The maps, in the order of insertion. -/
structure FlowState where
  nodes : List (Text × Node) := []
  groups : List (Text × NodeId) := []
  edges : List (Text × Link) := []

inductive Stop
  | thrown (failure : Failure)
  | unavailable (reason : String)

def orThrow {α : Type} : Except Failure α → Except Stop α
  | .ok a => .ok a
  | .error failure => .error (.thrown failure)

/-- `chartNumber` throws for what `Number` rounds to more than 2^53 - 1. -/
def chartNumber (exact : Text) : Except Failure Unit :=
  match parsed exact with
  | none => .error .unsafeCoordinate
  | some d =>
      if (2 ^ 54 - 1) * 10 ^ d.scale ≤ 2 * d.coefficient.natAbs then .error .unsafeCoordinate
      else .ok ()

/-- An account and its exact amount. -/
structure Entry where
  account : Text
  exact : Text

def isCredit (e : Entry) : Bool := e.exact.head? = some '-'

def regularPostings (commodity : Text) (t : Transaction) : List (Text × Amount) :=
  (t.tpostings.filter fun p => p.ptype = "RegularPosting").flatMap fun p =>
    (p.pamount.filter fun amount => amount.acommodity = commodity).map (p.paccount, ·)

def entryOf (p : Text × Amount) : Entry := ⟨p.1, decimalString p.2.decimalMantissa p.2.decimalPlaces⟩

def signatureItem (e : Entry) : Text :=
  (if isCredit e then "from:".toList else "to:".toList) ++ e.account

/-- The order of `sort`. -/
def itemLe (a b : Text) : Prop :=
  List.le (a.flatMap Browser.codeUnits) (b.flatMap Browser.codeUnits)

instance (a b : Text) : Decidable (itemLe a b) := inferInstanceAs (Decidable (List.le _ _))

def signature (entries : List Entry) : Text :=
  ['\x00'].intercalate
    (((entries.filter fun e => e.exact ≠ ['0']).map signatureItem).dedup.insertionSort itemLe)

/-- The key of a link: a zero stands between the ids. -/
def edgeKey (source target : NodeId) : Text := source.text ++ '\x00' :: target.text

def setNode (id : NodeId) (nodes : List (Text × Node)) : List (Text × Node) :=
  putKey id.text ⟨id, id.label⟩ nodes

def addPosting (hub : NodeId) (st : FlowState) (e : Entry) : Except Failure FlowState :=
  if e.exact = ['0'] then .ok st
  else do
    let account := if isCredit e then NodeId.credit e.account else .debit e.account
    let source := if isCredit e then account else hub
    let target := if isCredit e then hub else account
    let known := (st.edges.lookup (edgeKey source target)).map (·.exact)
    let exact ← addDecimal (known.getD ['0']) (withoutSign e.exact)
    .ok { st with
      nodes := setNode account st.nodes
      edges := putKey (edgeKey source target) ⟨source, target, exact⟩ st.edges }

/-- The group of a signature, a new one if there is none yet. -/
def openGroup (signature : Text) (st : FlowState) : NodeId × FlowState :=
  match st.groups.lookup signature with
  | some hub => (hub, st)
  | none =>
      let hub := NodeId.transaction (st.groups.length + 1)
      (hub, { st with
        groups := putKey signature hub st.groups
        nodes := setNode hub st.nodes })

def addTransaction (commodity : Text) (st : FlowState) (t : Transaction) :
    Except Stop FlowState :=
  let postings := regularPostings commodity t
  if postings.any fun p => p.2.acost then
    .error (.unavailable "Costed/exchange transactions need an explicit valuation policy. No ambiguous commodity flow is drawn.")
  else do
    let entries := postings.map entryOf
    let total ← orThrow (entries.foldlM (fun sum e => addDecimal sum e.exact) ['0'])
    if total ≠ ['0'] then
      .error (.unavailable "Postings do not balance within this commodity. Exchanges or virtual postings require a different flow model; none is invented.")
    else if signature entries = [] then .ok st
    else
      let opened := openGroup (signature entries) st
      orThrow (entries.foldlM (addPosting opened.1) opened.2)

def flows (transactions : List Transaction) (commodity : Text) : Except Stop SankeyData :=
  if transactions.any fun t => t.tpostings.any fun p =>
      p.ptype ∉ ["RegularPosting", "VirtualPosting", "BalancedVirtualPosting"] then
    .error (.unavailable "Unsupported native posting type; no partial or guessed flow graph is shown.")
  else if 300 < transactions.length then
    .error (.unavailable "More than 300 transactions. Narrow the range; no partial flow graph is shown.")
  else do
    let st ← transactions.foldlM (addTransaction commodity) {}
    if 200 < st.nodes.length ∨ 400 < st.edges.length then
      .error (.unavailable "Flow graph exceeds 200 nodes / 400 links. Narrow the report range.")
    else do
      let links ← orThrow (st.edges.mapM fun e => do
        chartNumber e.2.exact
        .ok e.2)
      .ok ⟨st.nodes.map (·.2), links⟩

/-! ## Names -/

section Names

/-- The first two characters of an id. -/
def NodeId.tag : NodeId → Text
  | .credit _ => ['f', 'r']
  | .debit _ => ['t', 'o']
  | .transaction _ => ['t', 'r']

theorem NodeId.take_text (id : NodeId) (s : Text) : (id.text ++ s).take 2 = id.tag := by
  cases id <;> rfl

theorem NodeId.text_injective : Function.Injective NodeId.text := by
  intro a b h
  have htag : a.tag = b.tag := by
    rw [← a.take_text [], ← b.take_text [], h]
  cases a with
  | credit s =>
      cases b with
      | credit t => exact congrArg _ (List.append_cancel_left h)
      | debit t => simp [NodeId.tag] at htag
      | transaction n => simp [NodeId.tag] at htag
  | debit s =>
      cases b with
      | credit t => simp [NodeId.tag] at htag
      | debit t => exact congrArg _ (List.append_cancel_left h)
      | transaction n => simp [NodeId.tag] at htag
  | transaction m =>
      cases b with
      | credit t => simp [NodeId.tag] at htag
      | debit t => simp [NodeId.tag] at htag
      | transaction n =>
          have hvalue := congrArg digitsValue (List.append_cancel_left h)
          rw [digitsValue, digitsValue, Nat.ofDigitChars_ten_toDigits,
            Nat.ofDigitChars_ten_toDigits] at hvalue
          rw [hvalue]

theorem zero_notMem_transaction (n : Nat) : '\x00' ∉ (NodeId.transaction n).text := by
  intro h
  have hparts : '\x00' ∈ "transaction:".toList ++ Nat.toDigits 10 n := h
  rcases List.mem_append.mp hparts with h | h
  · exact absurd h (by decide)
  have hdigit : '\x00'.isDigit = true := Nat.isDigit_of_mem_toDigits (by decide) (by decide) h
  exact absurd hdigit (by decide)

/-- Links of accounts and groups have one key only if they are one. -/
theorem edgeKey_injective {account account' : Text} {m n : Nat} :
    (edgeKey (.credit account) (.transaction m) = edgeKey (.credit account') (.transaction n) →
      account = account' ∧ m = n) ∧
    (edgeKey (.transaction m) (.debit account) = edgeKey (.transaction n) (.debit account') →
      m = n ∧ account = account') ∧
    edgeKey (.credit account) (.transaction m) ≠ edgeKey (.transaction n) (.debit account') := by
  refine ⟨fun h => ?_, fun h => ?_, fun h => ?_⟩
  · have hreverse := congrArg List.reverse h
    simp only [edgeKey, List.reverse_append, List.reverse_cons, List.append_assoc,
      List.singleton_append] at hreverse
    obtain ⟨htarget, hsource⟩ := cut_inj (by simpa using zero_notMem_transaction m)
      (by simpa using zero_notMem_transaction n) hreverse
    have h1 := NodeId.text_injective (List.reverse_injective hsource)
    have h2 := NodeId.text_injective (List.reverse_injective htarget)
    cases h1
    cases h2
    exact ⟨rfl, rfl⟩
  · obtain ⟨hsource, htarget⟩ := cut_inj (zero_notMem_transaction m) (zero_notMem_transaction n) h
    have h1 := NodeId.text_injective hsource
    have h2 := NodeId.text_injective htarget
    cases h1
    cases h2
    exact ⟨rfl, rfl⟩
  · have htag := congrArg (List.take 2) h
    rw [edgeKey, edgeKey, NodeId.take_text, NodeId.take_text] at htag
    simp [NodeId.tag] at htag

end Names

end Openlia.Finance
