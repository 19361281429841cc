import Mathlib.Data.String.Basic
import Odatano.KeysetPages
import Odatano.TableSlices
import Odatano.TransactionBackfill

/-!
# The credential backfill

`srv/blockchain/crawler/credential-backfill.ts` fills the payment credential of the rows that
predate the column, page by page in primary key order, while the crawler goes on writing.
-/

namespace Odatano

open KeysetCursor

/-- A table with an address and a payment credential; setting the credential changes nothing else. -/
structure CredentialTableSpec (α ρ : Type) extends Keyset ρ α Nat where
  address : ρ → Option Address
  column : ρ → Option String
  set : String → ρ → ρ
  key_set (credential : String) (row : ρ) :
    first (set credential row) = first row ∧ second (set credential row) = second row
  address_set (credential : String) (row : ρ) : address (set credential row) = address row
  column_set (credential : String) (row : ρ) : column (set credential row) = some credential

def TransactionOutputs : CredentialTableSpec Nat TransactionOutputRow where
  first := TransactionOutputRow.txSeq
  second := TransactionOutputRow.outputIndex
  address row := some row.address
  column := TransactionOutputRow.paymentCredential
  set credential row := { row with paymentCredential := some credential }
  key_set _ _ := ⟨rfl, rfl⟩
  address_set _ _ := rfl
  column_set _ _ := rfl

def TransactionInputs : CredentialTableSpec Nat StoredInputRow where
  first := StoredInputRow.txSeq
  second := StoredInputRow.inputIndex
  address := StoredInputRow.address
  column := StoredInputRow.paymentCredential
  set credential row := { row with paymentCredential := some credential }
  key_set _ _ := ⟨rfl, rfl⟩
  address_set _ _ := rfl
  column_set _ _ := rfl

def LedgerUTxOs : CredentialTableSpec String LedgerUtxoRow where
  first row := row.txHash.chars
  second := LedgerUtxoRow.outputIndex
  address row := some row.address
  column := LedgerUtxoRow.paymentCredential
  set credential row := { row with paymentCredential := some credential }
  key_set _ _ := ⟨rfl, rfl⟩
  address_set _ _ := rfl
  column_set _ _ := rfl

structure Fill (α : Type) where
  first : α
  second : Nat
  credential : String

variable {α ρ : Type} [LinearOrder α]

/-- The key of the row to fill. -/
def Fill.key (fill : Fill α) : α ×ₗ Nat := toLex (fill.first, fill.second)

/-- Where a walk is: its cursor, the addresses decoded so far and the rows filled. -/
structure CredentialWalk (α : Type) where
  cursor : Option (KeysetCursor α Nat)
  decoded : OrderedMap Address (Option String)
  filled : Nat

def CredentialWalk.start : CredentialWalk α := ⟨none, Table.empty, 0⟩

namespace CredentialTableSpec

variable (spec : CredentialTableSpec α ρ)

/-- The rows of the table, no two with one key. -/
abbrev Rows : Type := Table spec.key

/-- What the join of an `UPDATE` finds for a row. -/
def fillRow (fills : List (Fill α)) (row : ρ) : ρ :=
  match fills.find? fun fill => decide (fill.key = spec.key row) with
  | some fill => spec.set fill.credential row
  | none => row

theorem key_fillRow (fills : List (Fill α)) (row : ρ) :
    spec.key (spec.fillRow fills row) = spec.key row := by
  unfold fillRow
  split
  · rename_i fill found
    rw [Keyset.key, Keyset.key, (spec.key_set _ _).1, (spec.key_set _ _).2]
  · rfl

/-- One `UPDATE` of rows without a credential. -/
def updateFilled (table : spec.Rows) (fills : List (Fill α)) : spec.Rows :=
  table.update (fun row => (spec.column row).isNone) (spec.fillRow fills) (spec.key_fillRow fills)

/-- The statements that write some fills: one a chunk, or one a row. -/
def statements (kind : DbKind) (chunkSize : Nat) (fills : List (Fill α)) : List (List (Fill α)) :=
  if fills.isEmpty = true then []
  else if kind.fillsInBulk = true then chunk fills chunkSize
  else fills.map fun fill => [fill]

def writeFills (kind : DbKind) (chunkSize : Nat) (table : spec.Rows) (fills : List (Fill α)) :
    spec.Rows :=
  (statements kind chunkSize fills).foldl spec.updateFilled table

variable [Bech32]

/-- Take up one row of a page: nothing if it has a credential or no address, else its fill. -/
def collectFill (state : OrderedMap Address (Option String) × List (Fill α)) (row : ρ) :
    OrderedMap Address (Option String) × List (Fill α) :=
  if (spec.column row).isSome = true then state
  else
    match spec.address row with
    | none => state
    | some address =>
        if address = "" then state
        else
          let decoded := if (OrderedMap.get? state.1 address).isSome = true then state.1
            else OrderedMap.set state.1 address (paymentCredentialOf address)
          match OrderedMap.get? decoded address with
          | some (some credential) =>
              if credential = "" then (decoded, state.2)
              else (decoded, state.2 ++ [⟨spec.first row, spec.second row, credential⟩])
          | _ => (decoded, state.2)

/-- Decoded addresses are forgotten from here on. -/
def MAX_DECODED : Nat := 50000

/-- Read the next page: the fills of its rows, where the walk is then and whether it is done. -/
def readFills (chunkSize : Nat) (table : spec.Rows) (walk : CredentialWalk α) :
    List (Fill α) × CredentialWalk α × Bool :=
  let page := spec.readPage chunkSize table.rows walk.cursor
  let (decoded, fills) := page.rows.foldl spec.collectFill (walk.decoded, [])
  (fills, ⟨page.next, if decoded.rows.length > MAX_DECODED then Table.empty else decoded,
    walk.filled + fills.length⟩, page.done)

/-- Walks one table; the rows that received a credential.  At most `rounds` pages are read. -/
def fillTable (kind : DbKind) (chunkSize : Nat) :
    Nat → spec.Rows → CredentialWalk α → Option (spec.Rows × Nat)
  | 0, _, _ => none
  | rounds + 1, table, walk =>
      let (fills, next, done) := spec.readFills chunkSize table walk
      let written := spec.writeFills kind chunkSize table fills
      if done = true then some (written, next.filled) else fillTable kind chunkSize rounds written next

end CredentialTableSpec

/-- The tables of the backfill, `CREDENTIAL_TABLES` in the source. -/
structure CredentialTables where
  outputs : TransactionOutputs.Rows
  inputs : TransactionInputs.Rows
  ledgerUtxos : LedgerUTxOs.Rows

structure CredentialBackfillProgress where
  outputs : Nat
  inputs : Nat
  ledgerUtxos : Nat
deriving DecidableEq

def backfillUtxoCredentials [Bech32] (kind : DbKind) (chunkSize rounds : Nat)
    (tables : CredentialTables) : Option (CredentialTables × CredentialBackfillProgress) := do
  let (outputs, filledOutputs) ← TransactionOutputs.fillTable kind chunkSize rounds tables.outputs .start
  let (inputs, filledInputs) ← TransactionInputs.fillTable kind chunkSize rounds tables.inputs .start
  let (ledgerUtxos, filledUtxos) ← LedgerUTxOs.fillTable kind chunkSize rounds tables.ledgerUtxos .start
  some (⟨outputs, inputs, ledgerUtxos⟩, ⟨filledOutputs, filledInputs, filledUtxos⟩)

/-! ## The fills of a page -/

section Fills

variable [Bech32]

/-- The credential of an address column. -/
def credentialOf (address : Option Address) : Option String := address.bind paymentCredentialOf

omit [Bech32] in
theorem hexOf_ne_empty {bytes : List UInt8} (some : bytes ≠ []) : hexOf bytes ≠ "" := by
  intro empty
  cases bytes with
  | nil => exact some rfl
  | cons byte bytes =>
      have chars := congrArg String.toList empty
      rw [hexOf, String.toList_ofList, List.flatMap_cons] at chars
      cases chars

/-- A credential is never the empty text. -/
theorem paymentCredentialOf_ne_empty (address : Address) :
    paymentCredentialOf address ≠ some "" := by
  have written {bytes : List UInt8} {type : Nat}
      (isCredential : (if type ≤ 7 ∧ 29 ≤ bytes.length then some (hexOf ((bytes.drop 1).take 28))
        else none) = some "") : False := by
    split at isCredential
    · rename_i long
      refine hexOf_ne_empty ?_ (Option.some.inj isCredential)
      rw [← List.length_pos_iff, List.length_take, List.length_drop]
      omega
    · cases isCredential
  have noCredential := (Option.some_ne_none "").symm
  intro isCredential
  unfold paymentCredentialOf at isCredential
  split at isCredential
  · exact noCredential isCredential
  · rename_i some
    rw [decodeShelleyAddress, dif_neg some] at isCredential
    split at isCredential
    · split at isCredential <;> exact noCredential isCredential
    · rename_i hrp bytes isDecoded
      split at isCredential
      · exact noCredential isCredential
      · split at isCredential
        · exact noCredential isCredential
        · rename_i header isHeader
          dsimp only at isCredential
          generalize isWritten : (if header.toNat / 16 ≤ 7 ∧ 29 ≤ bytes.length then
            Option.some (hexOf ((bytes.drop 1).take 28)) else none) = credential at isCredential
          split at isCredential
          all_goals first
            | exact noCredential isCredential
            | exact written (isWritten.trans isCredential)

namespace CredentialTableSpec

variable (spec : CredentialTableSpec α ρ)

/-- What the backfill writes into a row, if anything. -/
def fillOf (row : ρ) : Option (Fill α) :=
  if (spec.column row).isSome = true then none
  else (credentialOf (spec.address row)).map fun credential =>
    ⟨spec.first row, spec.second row, credential⟩

/-- The decoded addresses are what decoding gives. -/
def Decoded (decoded : OrderedMap Address (Option String)) : Prop :=
  ∀ address credential, OrderedMap.get? decoded address = some credential →
    credential = paymentCredentialOf address

omit [LinearOrder α] in
theorem collectFill_eq {decoded : OrderedMap Address (Option String)} (sound : Decoded decoded)
    (fills : List (Fill α)) (row : ρ) :
    ∃ known, Decoded known ∧
      spec.collectFill (decoded, fills) row = (known, fills ++ (spec.fillOf row).toList) := by
  unfold collectFill fillOf
  split
  · exact ⟨decoded, sound, by simp⟩
  · cases spec.address row with
    | none => exact ⟨decoded, sound, by simp [credentialOf]⟩
    | some address =>
        dsimp only
        split
        · rename_i empty
          exact ⟨decoded, sound, by simp [credentialOf, empty, paymentCredentialOf]⟩
        · have known : ∃ known, Decoded known ∧
              OrderedMap.get? known address = some (paymentCredentialOf address) ∧
              (if (OrderedMap.get? decoded address).isSome = true then decoded
                else OrderedMap.set decoded address (paymentCredentialOf address)) = known := by
            cases found : OrderedMap.get? decoded address with
            | some credential =>
                exact ⟨decoded, sound, by rw [found, sound _ _ found], rfl⟩
            | none =>
                refine ⟨_, ?_, ?_, rfl⟩
                · rw [Option.isSome_none, if_neg Bool.false_ne_true]
                  intro other credential isKnown
                  rw [OrderedMap.get?_set] at isKnown
                  split at isKnown
                  · rename_i same
                    rw [← same, Option.some.inj isKnown]
                  · exact sound other credential isKnown
                · rw [Option.isSome_none, if_neg Bool.false_ne_true, OrderedMap.get?_set, if_pos rfl]
          obtain ⟨known, isSound, isKnown, same⟩ := known
          rw [same, isKnown]
          refine ⟨known, isSound, ?_⟩
          cases decodes : paymentCredentialOf address with
          | none => simp [credentialOf, decodes]
          | some credential =>
              have some : credential ≠ "" := fun empty =>
                paymentCredentialOf_ne_empty address (decodes.trans (congrArg _ empty))
              simp [credentialOf, decodes, some]

omit [LinearOrder α] in
/-- The fills of a page are the fills of its rows. -/
theorem foldl_collectFill {decoded : OrderedMap Address (Option String)} (sound : Decoded decoded)
    (fills : List (Fill α)) (rows : List ρ) :
    ∃ known, Decoded known ∧
      rows.foldl spec.collectFill (decoded, fills) = (known, fills ++ rows.filterMap spec.fillOf) := by
  induction rows generalizing decoded fills with
  | nil => exact ⟨decoded, sound, by simp⟩
  | cons row rows ih =>
      obtain ⟨known, isSound, collected⟩ := spec.collectFill_eq sound fills row
      obtain ⟨later, isLater, folded⟩ := ih isSound (fills ++ (spec.fillOf row).toList)
      refine ⟨later, isLater, ?_⟩
      rw [List.foldl_cons, collected, folded, List.append_assoc, List.filterMap_cons]
      cases spec.fillOf row <;> rfl

omit [LinearOrder α] in
theorem mem_fillOf {row : ρ} {fill : Fill α} (isFill : spec.fillOf row = some fill) :
    fill.key = spec.key row ∧ spec.column row = none ∧
      credentialOf (spec.address row) = some fill.credential := by
  unfold fillOf at isFill
  split at isFill
  · cases isFill
  · rename_i empty
    obtain ⟨credential, isCredential, rfl⟩ := Option.map_eq_some_iff.mp isFill
    exact ⟨rfl, Option.not_isSome_iff_eq_none.mp empty, isCredential⟩

omit [LinearOrder α] in
/-- A row whose address has a credential that it lacks is filled. -/
theorem exists_fillOf {row : ρ} (empty : spec.column row = none)
    (wrong : spec.column row ≠ credentialOf (spec.address row)) :
    ∃ fill, spec.fillOf row = some fill := by
  rw [fillOf, empty, Option.isSome_none, if_neg Bool.false_ne_true]
  cases credential : credentialOf (spec.address row) with
  | none => exact absurd (empty.trans credential.symm) wrong
  | some credential => exact ⟨_, rfl⟩

omit [Bech32] in
/-- An update sets the credential of the rows that lack one and have a fill. -/
theorem mem_updateFilled {table : spec.Rows} {fills : List (Fill α)} {row : ρ}
    (isRow : row ∈ (spec.updateFilled table fills).rows) :
    ∃ old ∈ table.rows, spec.key row = spec.key old ∧ spec.address row = spec.address old ∧
      (row = old ∧ (spec.column old ≠ none ∨ ∀ fill ∈ fills, fill.key ≠ spec.key old) ∨
        spec.column old = none ∧
          ∃ fill ∈ fills, fill.key = spec.key old ∧ spec.column row = some fill.credential) := by
  obtain ⟨old, isOld, rfl⟩ := List.mem_map.mp isRow
  refine ⟨old, isOld, ?_⟩
  dsimp only
  split
  · rename_i isNone
    have empty := Option.isNone_iff_eq_none.mp isNone
    refine ⟨spec.key_fillRow fills old, ?_⟩
    unfold fillRow
    cases found : fills.find? fun fill => decide (fill.key = spec.key old) with
    | none =>
        refine ⟨rfl, .inl ⟨rfl, .inr fun fill isFill same => ?_⟩⟩
        exact absurd (decide_eq_true same) (List.find?_eq_none.mp found fill isFill)
    | some fill =>
        exact ⟨spec.address_set _ _, .inr ⟨empty, fill, List.mem_of_find?_eq_some found,
          of_decide_eq_true (List.find?_some found :), spec.column_set _ _⟩⟩
  · rename_i isSome
    exact ⟨rfl, rfl, .inl ⟨rfl, .inl fun none => isSome (Option.isNone_iff_eq_none.mpr none)⟩⟩

theorem readFills_eq {chunkSize : Nat} {table : spec.Rows} {walk : CredentialWalk α}
    (sound : Decoded walk.decoded) :
    ∃ known, Decoded known ∧
      spec.readFills chunkSize table walk =
        ((spec.readPage chunkSize table.rows walk.cursor).rows.filterMap spec.fillOf,
          ⟨(spec.readPage chunkSize table.rows walk.cursor).next, known, walk.filled +
            ((spec.readPage chunkSize table.rows walk.cursor).rows.filterMap spec.fillOf).length⟩,
          (spec.readPage chunkSize table.rows walk.cursor).done) := by
  obtain ⟨known, isSound, folded⟩ :=
    spec.foldl_collectFill sound [] (spec.readPage chunkSize table.rows walk.cursor).rows
  rw [List.nil_append] at folded
  unfold readFills
  dsimp only
  rw [folded]
  refine ⟨if known.rows.length > MAX_DECODED then Table.empty else known, ?_, rfl⟩
  split
  · intro address credential found
    cases found
  · exact isSound

omit [LinearOrder α] [Bech32] in
theorem flatten_statements (kind : DbKind) {chunkSize : Nat} (positive : 0 < chunkSize)
    (fills : List (Fill α)) : (statements kind chunkSize fills).flatten = fills := by
  unfold statements
  split
  · rename_i none
    rw [List.isEmpty_iff.mp none]
    rfl
  · split
    · exact flatten_chunk fills positive
    · rw [← List.flatMap_def, List.flatMap_singleton']

end CredentialTableSpec

end Fills

/-! ## The walk among other writers -/

/-- A walk between two statements: those left of its page, and whether that is the last one. -/
structure WalkState (spec : CredentialTableSpec α ρ) where
  table : spec.Rows
  walk : CredentialWalk α
  pending : List (List (Fill α))
  done : Bool

namespace WalkState

variable [Bech32] {spec : CredentialTableSpec α ρ} {kind : DbKind} {chunkSize : Nat}

def start (table : spec.Rows) : WalkState spec := ⟨table, .start, [], false⟩

/-- The walk has returned. -/
def Finished (state : WalkState spec) : Prop := state.pending = [] ∧ state.done = true

/-- The next statement of the walk: an update of its page, or the read of the next one. -/
def step (kind : DbKind) (chunkSize : Nat) (state : WalkState spec) : Option (WalkState spec) :=
  match state.pending with
  | fills :: rest => some { state with table := spec.updateFilled state.table fills, pending := rest }
  | [] =>
      if state.done = true then none
      else
        let (fills, next, done) := spec.readFills chunkSize state.table state.walk
        some ⟨state.table, next, CredentialTableSpec.statements kind chunkSize fills, done⟩

/-- A changed table has no row without a credential where another one is about to be written. -/
def SparesFills (state : WalkState spec) (table : spec.Rows) : Prop :=
  ∀ fill ∈ state.pending.flatten, ∀ row ∈ table.rows, spec.key row = fill.key →
    spec.column row = none → credentialOf (spec.address row) = some fill.credential

/-- A statement of the walk, or a change of the table by someone else. -/
inductive Next (others : spec.Rows → spec.Rows → Prop) (kind : DbKind) (chunkSize : Nat) :
    WalkState spec → WalkState spec → Prop
  | walk {state next : WalkState spec} (stepped : state.step kind chunkSize = some next) :
      Next others kind chunkSize state next
  | other {state : WalkState spec} {table : spec.Rows} (changes : others state.table table)
      (spares : state.SparesFills table) :
      Next others kind chunkSize state { state with table }

/-- The row has the credential of its address. -/
def Right (spec : CredentialTableSpec α ρ) (row : ρ) : Prop :=
  spec.column row = credentialOf (spec.address row)

/-- The row has the credential of its address, or none yet. -/
def NotWrong (spec : CredentialTableSpec α ρ) (row : ρ) : Prop :=
  spec.column row = none ∨ Right spec row

/-- A row is kept, or it is written with the credential of its address, or without one where it had
none before at the same address. -/
def WritesCredentials (spec : CredentialTableSpec α ρ) (before after : spec.Rows) : Prop :=
  ∀ row ∈ after.rows, row ∈ before.rows ∨ Right spec row ∨ spec.column row = none ∧
    ∃ old ∈ before.rows, spec.key old = spec.key row ∧ spec.address old = spec.address row ∧
      spec.column old = none

/-- What holds between two statements of the walk. -/
structure Sound (state : WalkState spec) : Prop where
  rows : ∀ row ∈ state.table.rows, NotWrong spec row
  decoded : CredentialTableSpec.Decoded state.walk.decoded
  fills : state.SparesFills state.table
  /-- A row that is not right yet is ahead, or is about to be filled. -/
  covers : ∀ row ∈ state.table.rows, ¬ Right spec row →
    (¬ Passed state.walk.cursor (spec.first row) (spec.second row) ∧ state.done = false) ∨
      ∃ fill ∈ state.pending.flatten, fill.key = spec.key row

variable {state next : WalkState spec}

theorem sound_start {table : spec.Rows} (rows : ∀ row ∈ table.rows, NotWrong spec row) :
    (start table).Sound where
  rows := rows
  decoded := by
    intro address credential found
    cases found
  fills := by
    intro fill isFill
    cases isFill
  covers _ _ _ := .inl ⟨not_passed_none, rfl⟩

/-- Others add no row that is left out. -/
theorem Sound.other (sound : state.Sound) {table : spec.Rows}
    (writes : WritesCredentials spec state.table table) (spares : state.SparesFills table) :
    ({ state with table } : WalkState spec).Sound where
  rows row isRow := (writes row isRow).elim (sound.rows row) fun written =>
    written.symm.imp_left And.left
  decoded := sound.decoded
  fills := spares
  covers row isRow wrong := by
    obtain kept | right | ⟨empty, old, isOld, same, address, oldEmpty⟩ := writes row isRow
    · exact sound.covers row kept wrong
    · exact absurd right wrong
    · have oldWrong : ¬ Right spec old := by
        intro right
        apply wrong
        rw [Right, oldEmpty, address] at right
        exact empty.trans right
      have covered := sound.covers old isOld oldWrong
      have parts : spec.first old = spec.first row ∧ spec.second old = spec.second row :=
        Prod.mk.inj (congrArg ofLex same)
      rw [parts.1, parts.2, same] at covered
      exact covered

/-- A row after an update: it is one from before that the fills are not for, or it has the
credential of its address. -/
theorem Sound.mem_updateFilled (sound : state.Sound) {fills : List (Fill α)}
    (pending : ∀ fill ∈ fills, fill ∈ state.pending.flatten) {row : ρ}
    (isRow : row ∈ (spec.updateFilled state.table fills).rows) :
    row ∈ state.table.rows ∧ (spec.column row ≠ none ∨ ∀ fill ∈ fills, fill.key ≠ spec.key row) ∨
      Right spec row ∧ spec.column row ≠ none := by
  obtain ⟨old, isOld, -, sameAddress, written⟩ := spec.mem_updateFilled isRow
  rcases written with ⟨rfl, kept⟩ | ⟨empty, fill, isFill, isKey, filled⟩
  · exact .inl ⟨isOld, kept⟩
  · have credential := sound.fills fill (pending fill isFill) old isOld isKey.symm empty
    rw [← sameAddress] at credential
    exact .inr ⟨filled.trans credential.symm, filled ▸ Option.some_ne_none _⟩

/-- An update fills the rows it is for. -/
theorem Sound.update (sound : state.Sound) {fills : List (Fill α)}
    {rest : List (List (Fill α))} (isNext : state.pending = fills :: rest) :
    ({ state with table := spec.updateFilled state.table fills, pending := rest } :
      WalkState spec).Sound := by
  have now : ∀ fill ∈ fills, fill ∈ state.pending.flatten := by
    intro fill isFill
    rw [isNext, List.flatten_cons]
    exact List.mem_append_left _ isFill
  have later : ∀ fill ∈ rest.flatten, fill ∈ state.pending.flatten := by
    intro fill isFill
    rw [isNext, List.flatten_cons]
    exact List.mem_append_right _ isFill
  constructor
  · intro row isRow
    rcases sound.mem_updateFilled now isRow with ⟨isOld, -⟩ | ⟨right, -⟩
    · exact sound.rows row isOld
    · exact .inr right
  · exact sound.decoded
  · intro fill isFill row isRow isKey empty
    rcases sound.mem_updateFilled now isRow with ⟨isOld, -⟩ | ⟨-, filled⟩
    · exact sound.fills fill (later fill isFill) row isOld isKey empty
    · exact absurd empty filled
  · intro row isRow wrong
    rcases sound.mem_updateFilled now isRow with ⟨isOld, kept⟩ | ⟨right, -⟩
    · have empty : spec.column row = none := (sound.rows row isOld).resolve_right wrong
      have unfilled := kept.resolve_left (not_not.mpr empty)
      refine (sound.covers row isOld wrong).imp_right ?_
      rintro ⟨fill, isFill, isKey⟩
      rw [isNext, List.flatten_cons, List.mem_append] at isFill
      exact ⟨fill, isFill.resolve_left fun inFills => unfilled fill inFills isKey, isKey⟩
    · exact absurd right wrong

/-- A page is filled from its rows, and later ones are ahead. -/
theorem Sound.read (sound : state.Sound) (positive : 0 < chunkSize)
    (idle : state.pending = []) (goesOn : state.done = false)
    (stepped : state.step kind chunkSize = some next) : next.Sound := by
  obtain ⟨known, isSound, read⟩ :=
    @CredentialTableSpec.readFills_eq _ _ _ _ spec chunkSize state.table _ sound.decoded
  rw [step, idle, goesOn] at stepped
  dsimp only at stepped
  rw [if_neg Bool.false_ne_true, read] at stepped
  cases stepped
  have flattened := CredentialTableSpec.flatten_statements kind positive
    ((spec.readPage chunkSize state.table.rows state.walk.cursor).rows.filterMap spec.fillOf)
  refine ⟨sound.rows, isSound, ?_, ?_⟩
  · intro fill isFill row isRow same _
    rw [flattened] at isFill
    obtain ⟨read, isRead, isFill⟩ := List.mem_filterMap.mp isFill
    obtain ⟨isKey, -, credential⟩ := spec.mem_fillOf isFill
    -- the row of that key is still the one that was read
    rw [List.inj_on_of_nodup_map state.table.keys_nodup isRow
      (Keyset.mem_of_mem_readPage isRead).1 (same.trans isKey)]
    exact credential
  · intro row isRow wrong
    have unpassed := (sound.covers row isRow wrong).resolve_right (by
      rw [idle]
      rintro ⟨fill, none, -⟩
      cases none)
    have filled (inPage : row ∈ (spec.readPage chunkSize state.table.rows state.walk.cursor).rows) :
        ∃ fill ∈ (CredentialTableSpec.statements kind chunkSize
          ((spec.readPage chunkSize state.table.rows state.walk.cursor).rows.filterMap
            spec.fillOf)).flatten, fill.key = spec.key row := by
      rw [flattened]
      have empty := (sound.rows row isRow).resolve_right wrong
      obtain ⟨fill, isFill⟩ := spec.exists_fillOf empty wrong
      exact ⟨fill, List.mem_filterMap.mpr ⟨row, inPage, isFill⟩, (spec.mem_fillOf isFill).1⟩
    by_cases passed : Passed (spec.readPage chunkSize state.table.rows state.walk.cursor).next
      (spec.first row) (spec.second row)
    · exact .inr (filled (Keyset.mem_readPage_of_passed positive state.table.keys_nodup isRow
        unpassed.1 passed))
    · cases done : (spec.readPage chunkSize state.table.rows state.walk.cursor).done with
      | true => exact .inr (filled (Keyset.mem_readPage_of_done positive isRow unpassed.1 done))
      | false => exact .inl ⟨passed, rfl⟩

theorem Sound.step (sound : state.Sound) (positive : 0 < chunkSize)
    (stepped : state.step kind chunkSize = some next) : next.Sound := by
  cases isPending : state.pending with
  | cons fills rest =>
      have updated := sound.update isPending
      rw [WalkState.step, isPending] at stepped
      cases stepped
      exact updated
  | nil =>
      cases isDone : state.done with
      | true =>
          rw [WalkState.step, isPending, isDone] at stepped
          cases stepped
      | false => exact sound.read positive isPending isDone stepped

theorem Sound.run {others : spec.Rows → spec.Rows → Prop} {table : spec.Rows}
    (positive : 0 < chunkSize) (stored : ∀ row ∈ table.rows, NotWrong spec row)
    (writes : ∀ before after, others before after → WritesCredentials spec before after)
    (run : Relation.ReflTransGen (Next others kind chunkSize) (start table) state) :
    state.Sound := by
  induction run with
  | refl => exact sound_start stored
  | tail _ next ih =>
      cases next with
      | walk stepped => exact ih.step positive stepped
      | other changes spares => exact ih.other (writes _ _ changes) spares

/-- A walk that has returned left nothing out. -/
theorem Sound.right_of_finished (sound : state.Sound) (finished : state.Finished) :
    ∀ row ∈ state.table.rows, Right spec row := by
  intro row isRow
  by_contra wrong
  rcases sound.covers row isRow wrong with ⟨-, goesOn⟩ | ⟨fill, isFill, -⟩
  · rw [finished.2] at goesOn
    cases goesOn
  · rw [finished.1] at isFill
    cases isFill

/-- The statements of a page are run one by one. -/
theorem run_statements {others : spec.Rows → spec.Rows → Prop} (pending : List (List (Fill α)))
    (table : spec.Rows) (walk : CredentialWalk α) (done : Bool) :
    Relation.ReflTransGen (Next others kind chunkSize) ⟨table, walk, pending, done⟩
      ⟨pending.foldl spec.updateFilled table, walk, [], done⟩ := by
  induction pending generalizing table with
  | nil => exact .refl
  | cons fills rest ih => exact .head (.walk rfl) (ih (spec.updateFilled table fills))

/-- The walk alone is one of these runs. -/
theorem run_fillTable {others : spec.Rows → spec.Rows → Prop} {rounds filled : Nat}
    {table written : spec.Rows} {walk : CredentialWalk α}
    (returned : spec.fillTable kind chunkSize rounds table walk = some (written, filled)) :
    ∃ state : WalkState spec,
      Relation.ReflTransGen (Next others kind chunkSize) ⟨table, walk, [], false⟩ state ∧
        state.Finished ∧ state.table = written ∧ state.walk.filled = filled := by
  induction rounds generalizing table walk with
  | zero => cases returned
  | succ rounds ih =>
      rw [CredentialTableSpec.fillTable] at returned
      cases read : spec.readFills chunkSize table walk with
      | mk fills after =>
          obtain ⟨next, done⟩ := after
          rw [read] at returned
          dsimp only at returned
          have step : (⟨table, walk, [], false⟩ : WalkState spec).step kind chunkSize =
              some ⟨table, next, CredentialTableSpec.statements kind chunkSize fills, done⟩ := by
            rw [WalkState.step]
            dsimp only
            rw [if_neg Bool.false_ne_true, read]
          have page := Relation.ReflTransGen.head (Next.walk step)
            (@run_statements _ _ _ _ spec kind chunkSize others
              (CredentialTableSpec.statements kind chunkSize fills) table next done)
          cases done with
          | true =>
              rw [if_pos rfl] at returned
              cases returned
              exact ⟨_, page, ⟨rfl, rfl⟩, rfl, rfl⟩
          | false =>
              rw [if_neg Bool.false_ne_true] at returned
              obtain ⟨state, run, finished⟩ := ih returned
              exact ⟨state, page.trans run, finished⟩

/-- However the statements of the walk and of the crawler follow each other, no row ever has another
credential than that of its address, and once the walk has returned every row has it; so too where
nobody else writes and the walk is `fillTable`. -/
theorem fillTable_among_writers {others : spec.Rows → spec.Rows → Prop} {table : spec.Rows}
    (positive : 0 < chunkSize) (stored : ∀ row ∈ table.rows, NotWrong spec row)
    (writes : ∀ before after, others before after → WritesCredentials spec before after)
    (run : Relation.ReflTransGen (Next others kind chunkSize) (start table) state) :
    (∀ row ∈ state.table.rows, NotWrong spec row) ∧
      (state.Finished → ∀ row ∈ state.table.rows, Right spec row) ∧
        ∀ rounds written filled,
          spec.fillTable kind chunkSize rounds table .start = some (written, filled) →
            ∀ row ∈ written.rows, Right spec row := by
  have sound := Sound.run positive stored writes run
  refine ⟨sound.rows, sound.right_of_finished, fun rounds written filled returned => ?_⟩
  obtain ⟨final, alone, finished, isFinal, -⟩ :=
    @run_fillTable _ _ _ _ spec kind chunkSize others _ _ _ _ _ returned
  rw [← isFinal]
  exact (Sound.run positive stored writes alone).right_of_finished finished

/-- Rows with their credentials may be written over the table. -/
theorem writesCredentials_upsertAll {table : spec.Rows} {rows : List ρ}
    (right : ∀ row ∈ rows, Right spec row) :
    WritesCredentials spec table (table.upsertAll rows) :=
  fun row isRow => (Table.mem_upsertAll isRow).imp_right fun isWritten => .inl (right row isWritten)

end WalkState

/-- The indexer writes outputs with their credentials. -/
theorem right_of_mem_mapTransactionOutputs [Bech32] {txSeq : Nat} {outputs : List TxOutputLine}
    {row : TransactionOutputRow} (isRow : row ∈ mapTransactionOutputs txSeq outputs) :
    WalkState.Right TransactionOutputs row := by
  obtain ⟨output, -, rfl⟩ := List.mem_map.mp isRow
  rfl

/-! ## The walk alone -/

theorem countP_lt_countP {γ : Type*} {rows : List γ} {p q : γ → Bool}
    (fewer : ∀ row ∈ rows, p row = true → q row = true) {row : γ} (isRow : row ∈ rows)
    (unselected : ¬ p row = true) (selected : q row = true) : rows.countP p < rows.countP q := by
  have split := List.countP_eq_countP_filter_add rows q p
  have both : (rows.filter p).countP q = rows.countP p := by
    rw [List.countP_filter]
    exact List.countP_congr fun row isRow => by
      rw [Bool.and_eq_true]
      exact ⟨And.right, fun isP => ⟨fewer row isRow isP, isP⟩⟩
  have some : 0 < (rows.filter fun row => !p row).countP q :=
    List.countP_pos_iff.mpr ⟨row, List.mem_filter.mpr ⟨isRow, by simpa using unselected⟩, selected⟩
  omega

namespace CredentialTableSpec

variable (spec : CredentialTableSpec α ρ) {kind : DbKind} {chunkSize : Nat}

/-- A row after an update. -/
def written (fills : List (Fill α)) (row : ρ) : ρ :=
  if (spec.column row).isNone = true then spec.fillRow fills row else row

theorem rows_updateFilled (table : spec.Rows) (fills : List (Fill α)) :
    (spec.updateFilled table fills).rows = table.rows.map (spec.written fills) := rfl

theorem written_of_column {row : ρ} {credential : String}
    (filled : spec.column row = some credential) (fills : List (Fill α)) :
    spec.written fills row = row := by
  rw [written, filled]
  exact if_neg Bool.false_ne_true

theorem written_of_none {row : ρ} (empty : spec.column row = none) (fills : List (Fill α)) :
    spec.written fills row = spec.fillRow fills row := by
  rw [written, empty]
  exact if_pos rfl

/-- A row that an update filled is left alone by the next one. -/
theorem updateFilled_append (table : spec.Rows) (first second : List (Fill α)) :
    spec.updateFilled (spec.updateFilled table first) second =
      spec.updateFilled table (first ++ second) := by
  apply Table.ext
  rw [rows_updateFilled, rows_updateFilled, rows_updateFilled, List.map_map]
  refine List.map_congr_left fun row _ => ?_
  rw [Function.comp_apply]
  cases column : spec.column row with
  | some credential => simp only [spec.written_of_column column]
  | none =>
      rw [spec.written_of_none column, spec.written_of_none column, fillRow, fillRow,
        List.find?_append]
      cases first.find? fun fill => decide (fill.key = spec.key row) with
      | some fill => exact spec.written_of_column (spec.column_set _ _) _
      | none => exact spec.written_of_none column _

/-- Whatever statements write the fills of a page, they write each fill once. -/
theorem writeFills_eq (positive : 0 < chunkSize) (table : spec.Rows) (fills : List (Fill α)) :
    spec.writeFills kind chunkSize table fills = spec.updateFilled table fills := by
  have foldl (pending : List (List (Fill α))) (table : spec.Rows) :
      pending.foldl spec.updateFilled table = spec.updateFilled table pending.flatten := by
    induction pending generalizing table with
    | nil => exact (Table.update_eq_self table fun _ _ _ => rfl).symm
    | cons fills rest ih =>
        rw [List.foldl_cons, ih, updateFilled_append, List.flatten_cons]
  rw [writeFills, foldl, flatten_statements kind positive]

section Alone

variable [Bech32]

/-- A row after the backfill. -/
def complete (row : ρ) : ρ :=
  match spec.fillOf row with
  | some fill => spec.set fill.credential row
  | none => row

omit [LinearOrder α] in
theorem parts_complete (row : ρ) :
    spec.first (spec.complete row) = spec.first row ∧
      spec.second (spec.complete row) = spec.second row := by
  unfold complete
  split
  · exact spec.key_set _ _
  · exact ⟨rfl, rfl⟩

omit [LinearOrder α] in
theorem key_complete (row : ρ) : spec.key (spec.complete row) = spec.key row := by
  rw [Keyset.key, Keyset.key, (spec.parts_complete row).1, (spec.parts_complete row).2]

/-- The table after the backfill. -/
def completed (table : spec.Rows) : spec.Rows :=
  table.update (fun _ => true) spec.complete spec.key_complete

/-- How many rows the backfill fills. -/
def gaps (table : spec.Rows) : Nat := table.rows.countP fun row => (spec.fillOf row).isSome

/-- The fills of a page complete its rows, and no other. -/
theorem written_page [DecidableEq ρ] {table : spec.Rows} {page : List ρ}
    (stored : ∀ row ∈ page, row ∈ table.rows) {row : ρ} (isRow : row ∈ table.rows) :
    spec.written (page.filterMap spec.fillOf) row =
      if row ∈ page then spec.complete row else row := by
  have own {fill : Fill α} (isFill : fill ∈ page.filterMap spec.fillOf)
      (same : fill.key = spec.key row) : row ∈ page ∧ spec.fillOf row = some fill := by
    obtain ⟨other, isOther, filled⟩ := List.mem_filterMap.mp isFill
    have isRow := table.mem_rows_inj (stored other isOther) isRow
      ((spec.mem_fillOf filled).1.symm.trans same)
    exact ⟨isRow ▸ isOther, isRow ▸ filled⟩
  cases column : spec.column row with
  | some credential =>
      have isComplete : spec.complete row = row := by
        rw [complete, fillOf, column]
        rfl
      rw [spec.written_of_column column, isComplete, ite_self]
  | none =>
      rw [spec.written_of_none column, fillRow]
      by_cases inPage : row ∈ page
      · rw [if_pos inPage, complete]
        cases filled : spec.fillOf row with
        | some fill =>
            have isFill := List.mem_filterMap.mpr ⟨row, inPage, filled⟩
            cases found : (page.filterMap spec.fillOf).find? fun fill =>
                decide (fill.key = spec.key row) with
            | some other =>
                have same := (own (List.mem_of_find?_eq_some found)
                  (of_decide_eq_true (List.find?_some found :))).2
                rw [Option.some.inj (filled.symm.trans same)]
            | none =>
                exact absurd (decide_eq_true (spec.mem_fillOf filled).1)
                  (List.find?_eq_none.mp found fill isFill)
        | none =>
            rw [List.find?_eq_none.mpr]
            intro fill isFill same
            have isOwn := (own isFill (of_decide_eq_true same)).2
            rw [filled] at isOwn
            cases isOwn
      · rw [if_neg inPage, List.find?_eq_none.mpr]
        intro fill isFill same
        exact inPage (own isFill (of_decide_eq_true same)).1

/-- Where the walk is: the rows it has passed are complete and counted, the others as they were. -/
structure Walked (before table : spec.Rows) (walk : CredentialWalk α) : Prop where
  rows : table.rows = before.rows.map fun row =>
    if Passed walk.cursor (spec.first row) (spec.second row) then spec.complete row else row
  decoded : Decoded walk.decoded
  filled : walk.filled = before.rows.countP fun row =>
    decide (Passed walk.cursor (spec.first row) (spec.second row)) && (spec.fillOf row).isSome

variable {spec} {before table : spec.Rows} {walk : CredentialWalk α}

/-- A row that has not been passed is as it was. -/
theorem Walked.mem_before (walked : Walked spec before table walk) {row : ρ}
    (stored : row ∈ table.rows)
    (unpassed : ¬ Passed walk.cursor (spec.first row) (spec.second row)) : row ∈ before.rows := by
  rw [walked.rows] at stored
  obtain ⟨old, isOld, rfl⟩ := List.mem_map.mp stored
  split at unpassed
  · rename_i passed
    rw [(spec.parts_complete old).1, (spec.parts_complete old).2] at unpassed
    exact absurd passed unpassed
  · rename_i still
    rwa [if_neg still]

theorem Walked.passed_iff (walked : Walked spec before table walk) (positive : 0 < chunkSize)
    {row : ρ} (isRow : row ∈ before.rows)
    (unpassed : ¬ Passed walk.cursor (spec.first row) (spec.second row)) :
    row ∈ table.rows ∧ (row ∈ (spec.readPage chunkSize table.rows walk.cursor).rows ↔
      Passed (spec.readPage chunkSize table.rows walk.cursor).next (spec.first row)
          (spec.second row) ∨
        (spec.readPage chunkSize table.rows walk.cursor).done = true) := by
  have stored : row ∈ table.rows := by
    rw [walked.rows]
    exact List.mem_map.mpr ⟨row, isRow, if_neg unpassed⟩
  refine ⟨stored, fun inPage => .inl (Keyset.passed_of_mem_readPage inPage), ?_⟩
  rintro (passed | done)
  · exact Keyset.mem_readPage_of_passed positive table.keys_nodup stored unpassed passed
  · exact Keyset.mem_readPage_of_done positive stored unpassed done

theorem Walked.rows_page (walked : Walked spec before table walk) (positive : 0 < chunkSize) :
    (spec.updateFilled table ((spec.readPage chunkSize table.rows walk.cursor).rows.filterMap
        spec.fillOf)).rows =
      before.rows.map fun row =>
        if Passed (spec.readPage chunkSize table.rows walk.cursor).next (spec.first row)
            (spec.second row) ∨ (spec.readPage chunkSize table.rows walk.cursor).done = true then
          spec.complete row
        else row := by
  classical
  have stored : ∀ row ∈ (spec.readPage chunkSize table.rows walk.cursor).rows, row ∈ table.rows :=
    fun row inPage => (Keyset.mem_of_mem_readPage inPage).1
  rw [rows_updateFilled]
  refine (congrArg (List.map (spec.written _)) walked.rows).trans ?_
  rw [List.map_map]
  refine List.map_congr_left fun row isRow => ?_
  rw [Function.comp_apply]
  by_cases passed : Passed walk.cursor (spec.first row) (spec.second row)
  · have isStored : spec.complete row ∈ table.rows := by
      rw [walked.rows]
      exact List.mem_map.mpr ⟨row, isRow, if_pos passed⟩
    have outside : spec.complete row ∉ (spec.readPage chunkSize table.rows walk.cursor).rows := by
      intro inPage
      refine (Keyset.mem_of_mem_readPage inPage).2 ?_
      rwa [(spec.parts_complete row).1, (spec.parts_complete row).2]
    rw [if_pos passed, spec.written_page stored isStored, if_neg outside,
      if_pos (.inl (Keyset.passed_readPage passed))]
  · obtain ⟨isStored, inPage⟩ := walked.passed_iff positive isRow passed
    rw [if_neg passed, spec.written_page stored isStored]
    exact if_congr inPage rfl rfl

theorem Walked.filled_page (walked : Walked spec before table walk) (positive : 0 < chunkSize) :
    walk.filled + ((spec.readPage chunkSize table.rows walk.cursor).rows.filterMap
        spec.fillOf).length =
      before.rows.countP fun row =>
        decide (Passed (spec.readPage chunkSize table.rows walk.cursor).next (spec.first row)
            (spec.second row) ∨ (spec.readPage chunkSize table.rows walk.cursor).done = true) &&
          (spec.fillOf row).isSome := by
  have page : (spec.readPage chunkSize table.rows walk.cursor).rows.Perm
      ((before.rows.filter fun row =>
        !decide (Passed walk.cursor (spec.first row) (spec.second row))).filter fun row =>
          decide (Passed (spec.readPage chunkSize table.rows walk.cursor).next (spec.first row)
            (spec.second row) ∨ (spec.readPage chunkSize table.rows walk.cursor).done = true)) := by
    have once : before.rows.Nodup := before.keys_nodup.of_map
    refine (List.perm_ext_iff_of_nodup (Keyset.nodup_map_readPage table.keys_nodup).of_map
      ((once.filter _).filter _)).mpr fun row => ?_
    rw [List.mem_filter, List.mem_filter, decide_eq_true_eq, Bool.not_eq_true', decide_eq_false_iff_not]
    constructor
    · intro inPage
      obtain ⟨stored, unpassed⟩ := Keyset.mem_of_mem_readPage inPage
      have isRow := walked.mem_before stored unpassed
      exact ⟨⟨isRow, unpassed⟩, (walked.passed_iff positive isRow unpassed).2.mp inPage⟩
    · rintro ⟨⟨isRow, unpassed⟩, reached⟩
      exact (walked.passed_iff positive isRow unpassed).2.mpr reached
  have passed : (before.rows.filter fun row =>
      decide (Passed walk.cursor (spec.first row) (spec.second row))).countP (fun row =>
        decide (Passed (spec.readPage chunkSize table.rows walk.cursor).next (spec.first row)
            (spec.second row) ∨ (spec.readPage chunkSize table.rows walk.cursor).done = true) &&
          (spec.fillOf row).isSome) = walk.filled := by
    rw [walked.filled, List.countP_filter]
    refine List.countP_congr fun row _ => ?_
    have later := @Keyset.passed_readPage _ _ _ _ _ spec.toKeyset table.rows chunkSize walk.cursor
      (spec.first row) (spec.second row)
    simp only [Bool.and_eq_true, decide_eq_true_eq]
    exact ⟨fun both => ⟨both.2, both.1.2⟩, fun both => ⟨⟨.inl (later both.1), both.2⟩, both.1⟩⟩
  rw [List.countP_eq_countP_filter_add before.rows _ fun row =>
    decide (Passed walk.cursor (spec.first row) (spec.second row)), passed,
    List.length_filterMap_eq_countP, page.countP_eq, List.countP_filter]
  congr 1
  refine List.countP_congr fun row _ => ?_
  rw [Bool.and_comm]

theorem walked_start (before : spec.Rows) : Walked spec before before .start where
  rows := by
    refine (List.map_id before.rows).symm.trans (List.map_congr_left fun row _ => ?_)
    exact (if_neg not_passed_none).symm
  decoded := by
    intro address credential found
    cases found
  filled := by
    refine (List.countP_eq_zero.mpr fun row _ counted => ?_).symm
    exact not_passed_none (of_decide_eq_true (Bool.and_eq_true_iff.mp counted).1)

/-- Rows ahead count twice: the walk may enter a first key and leave it again. -/
def remaining (before : spec.Rows) (cursor : Option (KeysetCursor α Nat)) : Nat :=
  2 * before.rows.countP (fun row => !decide (Passed cursor (spec.first row) (spec.second row))) +
    (isWithin cursor).toNat

theorem Walked.remaining_lt (walked : Walked spec before table walk)
    (goesOn : (spec.readPage chunkSize table.rows walk.cursor).done = false) :
    remaining before (spec.readPage chunkSize table.rows walk.cursor).next <
      remaining before walk.cursor := by
  have ahead (row : ρ) (_ : row ∈ before.rows)
      (unpassed : (!decide (Passed (spec.readPage chunkSize table.rows walk.cursor).next
        (spec.first row) (spec.second row))) = true) :
      (!decide (Passed walk.cursor (spec.first row) (spec.second row))) = true := by
    rw [Bool.not_eq_true', decide_eq_false_iff_not] at unpassed ⊢
    exact fun passed => unpassed (Keyset.passed_readPage passed)
  unfold remaining
  rcases Keyset.readPage_progress goesOn with some | ⟨inside, outside⟩
  · obtain ⟨row, inPage⟩ := List.exists_mem_of_ne_nil _ some
    obtain ⟨stored, unpassed⟩ := Keyset.mem_of_mem_readPage inPage
    have isRow := walked.mem_before stored unpassed
    have strictly := countP_lt_countP (p := fun row => !decide
      (Passed (spec.readPage chunkSize table.rows walk.cursor).next (spec.first row)
        (spec.second row))) (q := fun row =>
        !decide (Passed walk.cursor (spec.first row) (spec.second row))) ahead isRow
      (by simpa using Keyset.passed_of_mem_readPage inPage) (by simpa using unpassed)
    have enters := Bool.toNat_le (isWithin (spec.readPage chunkSize table.rows walk.cursor).next)
    omega
  · rw [inside, outside]
    exact Nat.lt_add_one_of_le (Nat.mul_le_mul_left 2 (List.countP_mono_left ahead))

/-- With enough rounds the walk ends with every row complete, and has counted them. -/
theorem fillTable_eq (positive : 0 < chunkSize) {rounds : Nat}
    (walked : Walked spec before table walk) (enough : remaining before walk.cursor < rounds) :
    spec.fillTable kind chunkSize rounds table walk =
      some (spec.completed before, spec.gaps before) := by
  induction rounds generalizing table walk with
  | zero => exact absurd enough (Nat.not_lt_zero _)
  | succ rounds ih =>
      obtain ⟨known, isSound, read⟩ := @readFills_eq _ _ _ _ spec chunkSize table _ walked.decoded
      have rows := walked.rows_page positive
      have filled := walked.filled_page positive
      unfold fillTable
      rw [read]
      dsimp only
      rw [spec.writeFills_eq positive]
      cases done : (spec.readPage chunkSize table.rows walk.cursor).done with
      | true =>
          rw [if_pos rfl, filled]
          simp only [done, or_true, if_true] at rows
          refine congrArg some (Prod.ext (Table.ext rows) (List.countP_congr fun row _ => ?_))
          simp only [done, or_true, decide_true, Bool.true_and]
      | false =>
          have fewer := walked.remaining_lt done
          rw [if_neg Bool.false_ne_true]
          simp only [done, Bool.false_eq_true, or_false] at rows filled
          exact ih ⟨rows, isSound, filled⟩ (Nat.lt_of_lt_of_le fewer (Nat.le_of_lt_succ enough))

omit [LinearOrder α] in
theorem fillOf_complete (row : ρ) : spec.fillOf (spec.complete row) = none := by
  unfold complete
  cases filled : spec.fillOf row with
  | none => exact filled
  | some fill =>
      rw [fillOf, spec.column_set]
      rfl

omit [LinearOrder α] in
theorem completed_completed (table : spec.Rows) :
    spec.completed (spec.completed table) = spec.completed table := by
  refine Table.update_eq_self _ fun row isRow _ => ?_
  obtain ⟨old, -, rfl⟩ := List.mem_map.mp isRow
  rw [if_pos rfl, complete, fillOf_complete]

omit [LinearOrder α] in
theorem gaps_completed (table : spec.Rows) : spec.gaps (spec.completed table) = 0 := by
  refine List.countP_eq_zero.mpr fun row isRow isGap => ?_
  obtain ⟨old, -, rfl⟩ := List.mem_map.mp isRow
  rw [if_pos rfl, fillOf_complete] at isGap
  cases isGap

end Alone

end CredentialTableSpec

/-! ## The backfill -/

section Backfill

variable [Bech32]

/-- The tables after the backfill. -/
def CredentialTables.completed (tables : CredentialTables) : CredentialTables where
  outputs := TransactionOutputs.completed tables.outputs
  inputs := TransactionInputs.completed tables.inputs
  ledgerUtxos := LedgerUTxOs.completed tables.ledgerUtxos

/-- The rows that lack the credential of their address. -/
def CredentialTables.gaps (tables : CredentialTables) : CredentialBackfillProgress where
  outputs := TransactionOutputs.gaps tables.outputs
  inputs := TransactionInputs.gaps tables.inputs
  ledgerUtxos := LedgerUTxOs.gaps tables.ledgerUtxos

omit [Bech32] in
theorem remaining_start_le {spec : CredentialTableSpec α ρ} (table : spec.Rows) :
    CredentialTableSpec.remaining table none ≤ 2 * table.rows.length :=
  Nat.mul_le_mul_left 2 List.countP_le_length

/-- Whatever the database and the chunk size, the backfill sets the credential of exactly the rows
that lack one and have an address with one, and counts them; a second run finds none. -/
theorem backfillUtxoCredentials_eq (kind : DbKind) {chunkSize rounds : Nat}
    (positive : 0 < chunkSize) (tables : CredentialTables)
    (enough : 2 * tables.outputs.rows.length < rounds ∧ 2 * tables.inputs.rows.length < rounds ∧
      2 * tables.ledgerUtxos.rows.length < rounds) :
    backfillUtxoCredentials kind chunkSize rounds tables = some (tables.completed, tables.gaps) ∧
      ∀ (again : DbKind) (size : Nat), 0 < size →
        backfillUtxoCredentials again size rounds tables.completed =
          some (tables.completed, ⟨0, 0, 0⟩) := by
  have run (kind : DbKind) {chunkSize : Nat} (positive : 0 < chunkSize) (tables : CredentialTables)
      (enough : 2 * tables.outputs.rows.length < rounds ∧ 2 * tables.inputs.rows.length < rounds ∧
        2 * tables.ledgerUtxos.rows.length < rounds) :
      backfillUtxoCredentials kind chunkSize rounds tables = some (tables.completed, tables.gaps) := by
    rw [backfillUtxoCredentials,
      CredentialTableSpec.fillTable_eq positive (CredentialTableSpec.walked_start tables.outputs)
        ((remaining_start_le _).trans_lt enough.1),
      CredentialTableSpec.fillTable_eq positive (CredentialTableSpec.walked_start tables.inputs)
        ((remaining_start_le _).trans_lt enough.2.1),
      CredentialTableSpec.fillTable_eq positive (CredentialTableSpec.walked_start tables.ledgerUtxos)
        ((remaining_start_le _).trans_lt enough.2.2)]
    rfl
  refine ⟨run kind positive tables enough, fun again size positive => ?_⟩
  have lengths : tables.completed.outputs.rows.length = tables.outputs.rows.length ∧
      tables.completed.inputs.rows.length = tables.inputs.rows.length ∧
      tables.completed.ledgerUtxos.rows.length = tables.ledgerUtxos.rows.length :=
    ⟨List.length_map .., List.length_map .., List.length_map ..⟩
  rw [run again positive tables.completed (by rwa [lengths.1, lengths.2.1, lengths.2.2])]
  simp only [CredentialTables.completed, CredentialTables.gaps,
    CredentialTableSpec.completed_completed, CredentialTableSpec.gaps_completed]

end Backfill

section Sample

def enterpriseAddress : Address := "addr_test1vqg3zyg3zyg3zyg3zyg3zyg3zyg3zyg3zyg3zyg3zyg3zygxrcya6"

/-- The bech32 package on the one address below. -/
@[reducible] def enterpriseBech32 : Bech32 where
  decode text :=
    if text = enterpriseAddress then some ("addr_test", 0x60 :: List.replicate 28 0x11) else none
  encode := byronBech32.encode

attribute [local instance] enterpriseBech32

def gapOutput : TransactionOutputRow :=
  ⟨1, 0, enterpriseAddress, ⟨none, none, none, none, none⟩, none, true, false⟩

theorem nodup_gapOutput : ([gapOutput].map TransactionOutputs.key).Nodup :=
  List.nodup_singleton _

def gapTables : CredentialTables :=
  ⟨⟨[gapOutput], nodup_gapOutput⟩, Table.empty, Table.empty⟩

theorem backfillUtxoCredentials_eq_sample :
    backfillUtxoCredentials .sqlite 5000 3 gapTables =
        some (gapTables.completed, gapTables.gaps) ∧
      ∀ (again : DbKind) (size : Nat), 0 < size →
        backfillUtxoCredentials again size 3 gapTables.completed =
          some (gapTables.completed, ⟨0, 0, 0⟩) :=
  backfillUtxoCredentials_eq .sqlite (by decide) gapTables (by decide)

example : gapTables.gaps = ⟨1, 0, 0⟩ := by decide +kernel

/-- The crawler writes an output of the second transaction meanwhile. -/
def crawledOutputs : List TransactionOutputRow :=
  mapTransactionOutputs 2
    [⟨enterpriseAddress, ⟨[], List.nodup_nil⟩, 0, ⟨none, none, none, none, none⟩, false⟩]

def afterRead : WalkState TransactionOutputs :=
  ((WalkState.start gapTables.outputs).step .sqlite 5000).getD (.start gapTables.outputs)

def afterCrawl : WalkState TransactionOutputs :=
  { afterRead with table := afterRead.table.upsertAll crawledOutputs }

def afterUpdate : WalkState TransactionOutputs :=
  (afterCrawl.step .sqlite 5000).getD afterCrawl

theorem eq_some_getD_of_isSome {γ : Type} {value : Option γ} (isSome : value.isSome = true) (other : γ) :
    value = some (value.getD other) := by
  cases value with
  | none => cases isSome
  | some value => rfl

/-- The crawler writes between the read and the update of the only page. -/
theorem fillTable_among_writers_sample : afterUpdate.table.rows.length = 2 ∧
    ∀ row ∈ afterUpdate.table.rows, WalkState.Right TransactionOutputs row := by
  have run : Relation.ReflTransGen (WalkState.Next (fun before after =>
      after = before.upsertAll crawledOutputs) .sqlite 5000)
      (WalkState.start gapTables.outputs) afterUpdate := by
    refine .tail (.tail (.single (.walk (eq_some_getD_of_isSome (by decide +kernel) _)))
      (.other rfl ?_)) (.walk (eq_some_getD_of_isSome (by decide +kernel) _))
    unfold WalkState.SparesFills
    decide +kernel
  refine ⟨by decide +kernel, (WalkState.fillTable_among_writers (by decide) ?_ ?_ run).2.1 ⟨?_, ?_⟩⟩
  · intro row isRow
    rw [List.mem_singleton.mp isRow]
    exact .inl rfl
  · rintro before after rfl
    exact WalkState.writesCredentials_upsertAll fun row => right_of_mem_mapTransactionOutputs
  · exact List.isEmpty_iff.mp (by decide +kernel)
  · decide +kernel

end Sample

end Odatano
