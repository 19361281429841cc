import Odatano.Pagination

/-!
# The stream of crawled blocks

`streamCrawledBlocks` of `srv/blockchain/crawler/certificate-backfill.ts`: a second chain-sync
stream over a slot range.  Its blocks are handed to a writer in batches, of each batch those
that are stored in the slot range of its first and last block.
-/

namespace Odatano

/-- One streamed block of a backfill, with what the collector took from it. -/
structure StreamedBlock (T : Type*) where
  hash : BlockHash
  slot : Nat
  transactions : Nat
  payload : T

/-- What a chain-sync stream reports; without a point, a roll backward is to the origin. -/
inductive NodeMessage
  | rollForward (block : BlockData) (txs : List Transaction)
  | rollBackward (point : Option ChainPoint)
  | onError

/-- The callbacks of a backfill, over a state that has the database. -/
structure BatchWriter (T W : Type*) where
  db : W → Db
  collect : BlockData → List Transaction → T
  writeBatch : W → List (StreamedBlock T) → W
  afterBatch : W → Nat → W

inductive StreamEnd
  | passed
  | failed
deriving DecidableEq

structure BlockStream (T W : Type*) where
  pending : List (StreamedBlock T)
  store : W
  /-- The batches as the writer got them. -/
  handed : List (List (StreamedBlock T))
  settled : Option StreamEnd

/-- Newest crawled block before a slot, else the crawl start; none is the origin. -/
def intersectionBefore (db : Db) (slot : Nat) : Option ChainPoint :=
  let below := (db.crawl .blocks).select fun row =>
    row.slot.any fun known => db.sync.startSlot.all (decide <| · ≤ known) && decide (known < slot)
  match (below.mergeSort fun first second => second.slot.getD 0 ≤ first.slot.getD 0).head? with
  | some row => some ⟨row.slot.getD 0, row.hash, row.height⟩
  | none =>
      match db.sync.startSlot, db.sync.startBlockHash with
      | some floor, some hash => some ⟨floor, hash, none⟩
      | _, _ => none

section Stream

variable {T W : Type*} (writer : BatchWriter T W) (fromSlot toSlot batchBlocks : Nat)

/-- The blocks of a batch that are stored in the slot range of its first and last one. -/
def heldBlocks (db : Db) (batch : List (StreamedBlock T)) : List (StreamedBlock T) :=
  match batch.head?, batch.getLast? with
  | some first, some last =>
      let rows := (db.crawl .blocks).select fun row =>
        row.slot.any fun slot => decide (first.slot ≤ slot) && decide (slot ≤ last.slot)
      batch.filter fun block => decide (block.hash ∈ rows.map BlockRow.hash)
  | _, _ => []

/-- One transaction of the writer. -/
def BlockStream.handOver (s : BlockStream T W) (batch : List (StreamedBlock T)) :
    BlockStream T W :=
  let held := heldBlocks (writer.db s.store) batch
  { s with
    handed := s.handed ++ [held]
    store := writer.afterBatch (writer.writeBatch s.store held)
      ((batch.getLast?.map StreamedBlock.slot).getD 0) }

def BlockStream.flush (s : BlockStream T W) : BlockStream T W :=
  if s.pending = [] then s else { s with pending := [] }.handOver writer s.pending

def BlockStream.onBlock (s : BlockStream T W) (block : BlockData) (txs : List Transaction) :
    BlockStream T W :=
  if s.settled.isSome then s
  else if toSlot < block.slotOrZero then { s with settled := some .passed }
  -- between the intersection and the range
  else if block.slotOrZero < fromSlot then s
  else
    let streamed := ⟨block.hash, block.slotOrZero, txs.length, writer.collect block txs⟩
    let pushed := { s with pending := s.pending ++ [streamed] }
    let flushed := if batchBlocks ≤ pushed.pending.length then pushed.flush writer else pushed
    if block.slotOrZero = toSlot then { flushed with settled := some .passed } else flushed

def BlockStream.onMessage (s : BlockStream T W) : NodeMessage → BlockStream T W
  | .rollForward block txs => s.onBlock writer fromSlot toSlot batchBlocks block txs
  -- a reorg mid-run is the crawler's to undo
  | .rollBackward _ => s
  | .onError => if s.settled.isSome then s else { s with settled := some .failed }

inductive StreamError
  | invalidRange
  /-- No chain-sync backend is available. -/
  | noBackend
  /-- The stream reported an error. -/
  | stream
deriving DecidableEq

/-- `streamCrawledBlocks` over the messages of the node, which may start after the intersection;
none while the stream has not passed the range. -/
def streamCrawledBlocks (hasBackend : Bool) (fromSlot toSlot : Int) (batchBlocks : Option Int)
    (store : W) (messages : List NodeMessage) :
    Option (Except StreamError (Option ChainPoint × BlockStream T W)) :=
  if fromSlot < 0 ∨ toSlot < fromSlot then some (.error .invalidRange)
  else if !hasBackend then some (.error .noBackend)
  else
    let run := messages.foldl
      (BlockStream.onMessage writer fromSlot.toNat toSlot.toNat
        (max 1 (batchBlocks.getD 200)).toNat) ⟨[], store, [], none⟩
    match run.settled with
    | none => none
    | some .failed => some (.error .stream)
    | some .passed =>
        some (.ok (intersectionBefore (writer.db store) fromSlot.toNat, run.flush writer))

end Stream

/-! ## The messages -/

/-- The stream is settled by the first block at the end of its range or past it. -/
def NodeMessage.settles (toSlot : Nat) : NodeMessage → Bool
  | .rollForward block _ => decide (toSlot ≤ block.slotOrZero)
  | .rollBackward _ => false
  | .onError => true

/-- The messages that the stream handles. -/
def untilSettled (toSlot : Nat) : List NodeMessage → List NodeMessage
  | [] => []
  | message :: rest =>
      if message.settles toSlot then [message] else message :: untilSettled toSlot rest

/-- A block of the range. -/
def NodeMessage.inRange {T : Type*} (collect : BlockData → List Transaction → T)
    (fromSlot toSlot : Nat) : NodeMessage → Option (StreamedBlock T)
  | .rollForward block txs =>
      if fromSlot ≤ block.slotOrZero ∧ block.slotOrZero ≤ toSlot then
        some ⟨block.hash, block.slotOrZero, txs.length, collect block txs⟩
      else none
  | .rollBackward _ => none
  | .onError => none

/-- The blocks of the range that are streamed. -/
def streamedBlocks {T : Type*} (collect : BlockData → List Transaction → T)
    (fromSlot toSlot : Nat) (messages : List NodeMessage) : List (StreamedBlock T) :=
  (untilSettled toSlot messages).filterMap (NodeMessage.inRange collect fromSlot toSlot)

/-- Where the node's chain ends after a message. -/
def NodeMessage.moves (tip : Option BlockHash) : NodeMessage → Option BlockHash
  | .rollForward block _ => some block.hash
  | .rollBackward point => point.map ChainPoint.hash
  | .onError => tip

/-- Where the node's chain ends when the stream is settled. -/
def settledTip (toSlot : Nat) (start : Option BlockHash) (messages : List NodeMessage) :
    Option BlockHash :=
  (untilSettled toSlot messages).foldl NodeMessage.moves start

/-- The messages of a node that rolls its chain forward block by block, and back along it. -/
inductive BlockForks.Sends (forks : BlockForks) (contents : BlockHash → List Transaction) :
    Option BlockHash → List NodeMessage → Prop
  | nil (tip : Option BlockHash) : forks.Sends contents tip []
  | rollForward {tip : Option BlockHash} {hash : BlockHash} {rest : List NodeMessage}
      (next : forks.tree.parent hash = tip) (after : forks.Sends contents (some hash) rest) :
      forks.Sends contents tip (.rollForward (forks.data hash) (contents hash) :: rest)
  | rollBackward {tip point : Option BlockHash} {height : Option Nat} {rest : List NodeMessage}
      (back : ∀ hash, point = some hash → ∃ node, tip = some node ∧ forks.tree.Ancestor hash node)
      (after : forks.Sends contents point rest) :
      forks.Sends contents tip
        (.rollBackward (point.map fun hash => ⟨forks.tree.rank hash, hash, height⟩) :: rest)
  | onError {tip : Option BlockHash} {rest : List NodeMessage}
      (after : forks.Sends contents tip rest) : forks.Sends contents tip (.onError :: rest)

/-- A block is on the chain that ends at `tip`. -/
def BlockForks.OnChain (forks : BlockForks) (hash : BlockHash) (tip : Option BlockHash) : Prop :=
  ∃ node, tip = some node ∧ forks.tree.Ancestor hash node

/-! ## What is handed over -/

section Run

variable {T W : Type*} {writer : BatchWriter T W} {fromSlot toSlot batchBlocks : Nat}
  {s : BlockStream T W}

theorem onMessage_settled (settled : s.settled.isSome) (message : NodeMessage) :
    s.onMessage writer fromSlot toSlot batchBlocks message = s := by
  cases message with
  | rollForward block txs => exact if_pos settled
  | rollBackward point => rfl
  | onError => exact if_pos settled

theorem foldl_onMessage_settled (settled : s.settled.isSome) (messages : List NodeMessage) :
    messages.foldl (BlockStream.onMessage writer fromSlot toSlot batchBlocks) s = s := by
  induction messages with
  | nil => rfl
  | cons message rest ih => rw [List.foldl_cons, onMessage_settled settled, ih]

/-- The batches of a list of streamed blocks, handed over one after another. -/
def BlockStream.handOverAll (writer : BatchWriter T W) (batchBlocks : Nat) (s : BlockStream T W)
    (blocks : List (StreamedBlock T)) : BlockStream T W :=
  (chunk blocks batchBlocks).foldl (BlockStream.handOver writer) s

/-- A flush hands over what is left as one batch. -/
theorem flush_eq (positive : 0 < batchBlocks) (small : s.pending.length ≤ batchBlocks) :
    s.flush writer =
      BlockStream.handOverAll writer batchBlocks { s with pending := [] } s.pending := by
  unfold BlockStream.flush BlockStream.handOverAll
  by_cases nothing : s.pending = []
  · rw [if_pos nothing, nothing, chunk_nil positive]
    obtain ⟨pending, store, handed, settled⟩ := s
    cases nothing
    rfl
  · rw [if_neg nothing, chunk_of_length_le nothing small]
    rfl

theorem handOverAll_settled {settled : Option StreamEnd} (blocks : List (StreamedBlock T)) :
    BlockStream.handOverAll writer batchBlocks { s with settled } blocks =
      { BlockStream.handOverAll writer batchBlocks s blocks with settled } := by
  unfold BlockStream.handOverAll
  induction chunk blocks batchBlocks generalizing s with
  | nil => rfl
  | cons batch rest ih => exact @ih (s.handOver writer batch)

/-- A block of the range joins the batch, which is handed over when it is full. -/
theorem handOverAll_push {block : StreamedBlock T} (positive : 0 < batchBlocks)
    (small : s.pending.length < batchBlocks) (rest : List (StreamedBlock T)) :
    let pushed : BlockStream T W := { s with pending := s.pending ++ [block] }
    let flushed := if batchBlocks ≤ pushed.pending.length then pushed.flush writer else pushed
    flushed.pending.length < batchBlocks ∧ flushed.settled = s.settled ∧
      BlockStream.handOverAll writer batchBlocks { flushed with pending := [] }
          (flushed.pending ++ rest) =
        BlockStream.handOverAll writer batchBlocks { s with pending := [] }
          (s.pending ++ block :: rest) := by
  intro pushed flushed
  have length : pushed.pending.length = s.pending.length + 1 := List.length_append
  have joined : s.pending ++ block :: rest = pushed.pending ++ rest :=
    (List.append_assoc s.pending [block] rest).symm
  by_cases full : batchBlocks ≤ pushed.pending.length
  · have isFlushed : flushed = { pushed with pending := [] }.handOver writer pushed.pending := by
      have some : pushed.pending ≠ [] := List.append_ne_nil_of_right_ne_nil _ (List.cons_ne_nil _ _)
      simp only [flushed, if_pos full, BlockStream.flush, if_neg some]
    rw [isFlushed, joined]
    refine ⟨positive, rfl, ?_⟩
    simp only [BlockStream.handOverAll]
    rw [chunk_append _ _ positive (Nat.le_antisymm (by omega) full)]
    rfl
  · have isPushed : flushed = pushed := if_neg full
    rw [isPushed, joined]
    exact ⟨Nat.lt_of_not_le full, rfl, rfl⟩

theorem streamedBlocks_cons (collect : BlockData → List Transaction → T) (message : NodeMessage)
    (rest : List NodeMessage) :
    streamedBlocks collect fromSlot toSlot (message :: rest) =
      (message.inRange collect fromSlot toSlot).toList ++
        if message.settles toSlot then [] else streamedBlocks collect fromSlot toSlot rest := by
  unfold streamedBlocks
  rw [untilSettled]
  cases message.settles toSlot with
  | true =>
      rw [if_pos rfl, if_pos rfl, List.append_nil, List.filterMap_cons]
      cases message.inRange collect fromSlot toSlot <;> rfl
  | false =>
      rw [if_neg Bool.false_ne_true, if_neg Bool.false_ne_true, List.filterMap_cons]
      cases message.inRange collect fromSlot toSlot <;> rfl

/-- A stream that is settled hands over what is left. -/
theorem flush_settled (positive : 0 < batchBlocks) (small : s.pending.length < batchBlocks)
    (settled : StreamEnd) :
    ({ s with settled := some settled }).flush writer =
      { BlockStream.handOverAll writer batchBlocks { s with pending := [] } s.pending with
        settled := some settled } :=
  (@flush_eq T W writer batchBlocks { s with settled := some settled } positive
    (Nat.le_of_lt small)).trans
    (@handOverAll_settled T W writer batchBlocks { s with pending := [] } (some settled) s.pending)

/-- Whatever the node sends, the streamed blocks of the range are handed over in the batches
they are cut into. -/
theorem foldl_onMessage_flush (positive : 0 < batchBlocks) (range : fromSlot ≤ toSlot)
    (messages : List NodeMessage) (running : s.settled = none)
    (small : s.pending.length < batchBlocks) :
    (messages.foldl (BlockStream.onMessage writer fromSlot toSlot batchBlocks) s).flush writer =
      { BlockStream.handOverAll writer batchBlocks { s with pending := [] }
          (s.pending ++ streamedBlocks writer.collect fromSlot toSlot messages) with
        settled := (messages.foldl
          (BlockStream.onMessage writer fromSlot toSlot batchBlocks) s).settled } := by
  induction messages generalizing s with
  | nil =>
      have nothing : streamedBlocks writer.collect fromSlot toSlot [] = [] := rfl
      rw [nothing, List.append_nil, List.foldl_nil, flush_eq positive (Nat.le_of_lt small)]
      exact @handOverAll_settled T W writer batchBlocks { s with pending := [] } s.settled s.pending
  | cons message rest ih =>
      rw [List.foldl_cons, streamedBlocks_cons]
      have notSettled : ¬ s.settled.isSome := by rw [running]; exact Bool.false_ne_true
      cases message with
      | rollBackward point => exact ih running small
      | onError =>
          have ended : s.onMessage writer fromSlot toSlot batchBlocks .onError =
              { s with settled := some .failed } := if_neg notSettled
          have rest : (NodeMessage.onError.inRange writer.collect fromSlot toSlot).toList ++ [] = [] :=
            rfl
          rw [ended, foldl_onMessage_settled rfl]
          simp only [NodeMessage.settles, if_true, rest, List.append_nil]
          exact flush_settled positive small .failed
      | rollForward block txs =>
          by_cases past : toSlot < block.slotOrZero
          · have ended : s.onMessage writer fromSlot toSlot batchBlocks (.rollForward block txs) =
                { s with settled := some .passed } := by
              simp only [BlockStream.onMessage, BlockStream.onBlock, if_neg notSettled, if_pos past]
            have outside : ¬ (fromSlot ≤ block.slotOrZero ∧ block.slotOrZero ≤ toSlot) :=
              fun inside => Nat.not_le_of_lt past inside.2
            rw [ended, foldl_onMessage_settled rfl]
            simp only [NodeMessage.settles, NodeMessage.inRange, if_neg outside,
              decide_eq_true (Nat.le_of_lt past), if_true, Option.toList_none, List.append_nil]
            exact flush_settled positive small .passed
          · by_cases before : block.slotOrZero < fromSlot
            · have skipped : s.onMessage writer fromSlot toSlot batchBlocks
                  (.rollForward block txs) = s := by
                simp only [BlockStream.onMessage, BlockStream.onBlock, if_neg notSettled,
                  if_neg past, if_pos before]
              have outside : ¬ (fromSlot ≤ block.slotOrZero ∧ block.slotOrZero ≤ toSlot) :=
                fun inside => Nat.not_le_of_lt before inside.1
              have running' : ¬ toSlot ≤ block.slotOrZero := by omega
              rw [skipped]
              simp only [NodeMessage.settles, NodeMessage.inRange, if_neg outside,
                decide_eq_false running', Bool.false_eq_true, if_false, Option.toList_none,
                List.nil_append]
              exact ih running small
            · have inside : fromSlot ≤ block.slotOrZero ∧ block.slotOrZero ≤ toSlot :=
                ⟨Nat.le_of_not_lt before, Nat.le_of_not_lt past⟩
              obtain ⟨still, unsettled, handed⟩ := @handOverAll_push T W writer batchBlocks s
                ⟨block.hash, block.slotOrZero, txs.length, writer.collect block txs⟩ positive small
                (if toSlot ≤ block.slotOrZero then []
                  else streamedBlocks writer.collect fromSlot toSlot rest)
              simp only [NodeMessage.settles, NodeMessage.inRange, if_pos inside,
                Option.toList_some, List.singleton_append, decide_eq_true_eq]
              rw [← handed]
              simp only [BlockStream.onMessage, BlockStream.onBlock, if_neg notSettled, if_neg past,
                if_neg before]
              by_cases last : block.slotOrZero = toSlot
              · rw [if_pos last, if_pos (Nat.le_of_eq last.symm), foldl_onMessage_settled rfl,
                  List.append_nil]
                exact flush_settled positive still .passed
              · have goesOn : ¬ toSlot ≤ block.slotOrZero := fun reached =>
                  last (Nat.le_antisymm inside.2 reached)
                rw [if_neg last, if_neg goesOn]
                exact ih (unsettled.trans running) still

/-- Writing a batch leaves the stored blocks alone. -/
def BatchWriter.KeepsBlocks (writer : BatchWriter T W) : Prop :=
  ∀ store held slot, (writer.db (writer.afterBatch (writer.writeBatch store held) slot)).crawl
    .blocks = (writer.db store).crawl .blocks

theorem mem_heldBlocks {db : Db} {batch : List (StreamedBlock T)} {block : StreamedBlock T} :
    block ∈ heldBlocks db batch ↔
      ∃ first last, batch.head? = some first ∧ batch.getLast? = some last ∧ block ∈ batch ∧
        ∃ row ∈ (db.crawl .blocks).rows, row.hash = block.hash ∧
          ∃ slot, row.slot = some slot ∧ first.slot ≤ slot ∧ slot ≤ last.slot := by
  unfold heldBlocks
  cases batch.head? with
  | none => simp
  | some first =>
      cases batch.getLast? with
      | none => simp
      | some last =>
          simp only [List.mem_filter, decide_eq_true_eq, List.mem_map, Table.mem_select,
            Option.any_eq_true, Bool.and_eq_true, Option.some.injEq, exists_eq_left',
            exists_and_left]
          refine and_congr_right fun _ => exists_congr fun row => ?_
          rw [and_assoc, and_comm (a := ∃ _, _)]

theorem heldBlocks_congr {first second : Db}
    (same : first.crawl .blocks = second.crawl .blocks) (batch : List (StreamedBlock T)) :
    heldBlocks first batch = heldBlocks second batch := by
  unfold heldBlocks
  rw [same]

/-- Each batch is cut down to what the first database has of it. -/
theorem handed_handOverAll (keeps : writer.KeepsBlocks) (blocks : List (StreamedBlock T)) :
    (BlockStream.handOverAll writer batchBlocks s blocks).handed =
      s.handed ++ (chunk blocks batchBlocks).map (heldBlocks (writer.db s.store)) := by
  unfold BlockStream.handOverAll
  induction chunk blocks batchBlocks generalizing s with
  | nil => exact (List.append_nil _).symm
  | cons batch rest ih =>
      have later : heldBlocks (writer.db (s.handOver writer batch).store) =
          @heldBlocks T (writer.db s.store) :=
        funext (heldBlocks_congr (keeps s.store _ _))
      rw [List.foldl_cons, ih, later]
      exact List.append_assoc s.handed [_] _

/-- A stream that passes its range hands over what its batches hold. -/
theorem streamCrawledBlocks_eq_ok {hasBackend : Bool} {fromSlot toSlot : Int}
    {batchSize : Option Int} {store : W} {messages : List NodeMessage}
    {intersection : Option ChainPoint}
    (returned : streamCrawledBlocks writer hasBackend fromSlot toSlot batchSize store messages =
      some (.ok (intersection, s))) :
    intersection = intersectionBefore (writer.db store) fromSlot.toNat ∧
      s = { BlockStream.handOverAll writer (max 1 (batchSize.getD 200)).toNat
          ⟨[], store, [], none⟩
            (streamedBlocks writer.collect fromSlot.toNat toSlot.toNat messages) with
        settled := some .passed } := by
  simp only [streamCrawledBlocks] at returned
  split at returned
  · cases returned
  · rename_i valid
    split at returned
    · cases returned
    · split at returned
      · cases returned
      · cases returned
      · rename_i passed
        cases returned
        refine ⟨rfl, ?_⟩
        have range : fromSlot.toNat ≤ toSlot.toNat := by omega
        have positive : 0 < (max 1 (batchSize.getD 200)).toNat := by omega
        rw [@foldl_onMessage_flush T W writer _ _ _ ⟨[], store, [], none⟩ positive range messages
          rfl positive, passed]
        rfl

end Run

/-! ## What is streamed -/

section Streamed

variable {T : Type*} {collect : BlockData → List Transaction → T} {fromSlot toSlot : Nat}
  {forks : BlockForks} {contents : BlockHash → List Transaction} {start : Option BlockHash}
  {messages : List NodeMessage} {hash : BlockHash}

theorem mem_untilSettled {message : NodeMessage} (handled : message ∈ untilSettled toSlot messages) :
    message ∈ messages := by
  induction messages with
  | nil => exact handled
  | cons first rest ih =>
      rw [untilSettled] at handled
      split at handled
      · exact List.mem_singleton.mp handled ▸ List.mem_cons_self
      · rcases List.mem_cons.mp handled with rfl | later
        · exact List.mem_cons_self
        · exact List.mem_cons_of_mem _ (ih later)

namespace BlockForks.Sends

/-- The node delivers blocks with their transactions. -/
theorem delivered (sends : forks.Sends contents start messages) {block : BlockData}
    {txs : List Transaction} (forwarded : .rollForward block txs ∈ messages) :
    block = forks.data block.hash ∧ txs = contents block.hash := by
  induction sends with
  | nil tip => cases forwarded
  | @rollForward tip hash rest next after ih =>
      rcases List.mem_cons.mp forwarded with here | later
      · cases here
        rw [forks.data_hash]
        exact ⟨rfl, rfl⟩
      · exact ih later
  | rollBackward back after ih =>
      rcases List.mem_cons.mp forwarded with here | later
      · cases here
      · exact ih later
  | onError after ih =>
      rcases List.mem_cons.mp forwarded with here | later
      · cases here
      · exact ih later

theorem untilSettled (sends : forks.Sends contents start messages) (toSlot : Nat) :
    forks.Sends contents start (untilSettled toSlot messages) := by
  induction sends with
  | nil tip => exact .nil tip
  | rollForward next after ih =>
      rw [Odatano.untilSettled]
      split
      · exact .rollForward next (.nil _)
      · exact .rollForward next ih
  | rollBackward back after ih =>
      rw [Odatano.untilSettled]
      exact .rollBackward back ih
  | @onError tip rest after ih =>
      rw [Odatano.untilSettled]
      exact .onError (.nil tip)

/-- A block on the node's last chain was there from the start, with only its descendants
delivered, or after some delivery of it only its descendants were. -/
theorem last_delivery (sends : forks.Sends contents start messages)
    (onChain : forks.OnChain hash (messages.foldl NodeMessage.moves start)) :
    (forks.OnChain hash start ∧ ∀ block txs, .rollForward block txs ∈ messages →
        forks.tree.Ancestor hash block.hash) ∨
      ∃ before after, messages = before ++ .rollForward (forks.data hash) (contents hash) :: after ∧
        ∀ block txs, .rollForward block txs ∈ after → forks.tree.Ancestor hash block.hash := by
  induction sends with
  | nil tip => exact .inl ⟨onChain, fun _ _ forwarded => absurd forwarded List.not_mem_nil⟩
  | @rollForward tip next rest isNext after ih =>
      have start : NodeMessage.moves tip (.rollForward (forks.data next) (contents next)) =
          some next := congrArg some (forks.data_hash next)
      rw [List.foldl_cons, start] at onChain
      rcases ih onChain with ⟨⟨node, isNode, ancestor⟩, above⟩ | ⟨before, later, rfl, above⟩
      · cases isNode
        rcases Relation.ReflTransGen.cases_tail ancestor with rfl | ⟨parent, below, child⟩
        · exact .inr ⟨[], rest, rfl, above⟩
        · refine .inl ⟨⟨parent, isNext.symm.trans child, below⟩, fun block txs forwarded => ?_⟩
          rcases List.mem_cons.mp forwarded with here | later
          · cases here
            rw [forks.data_hash]
            exact ancestor
          · exact above block txs later
      · exact .inr ⟨_ :: before, later, rfl, above⟩
  | @rollBackward tip point height rest back after ih =>
      have start : NodeMessage.moves tip
          (.rollBackward (point.map fun hash => ⟨forks.tree.rank hash, hash, height⟩)) = point := by
        cases point <;> rfl
      rw [List.foldl_cons, start] at onChain
      rcases ih onChain with ⟨⟨node, isNode, ancestor⟩, above⟩ | ⟨before, later, rfl, above⟩
      · obtain ⟨old, isOld, below⟩ := back node isNode
        refine .inl ⟨⟨old, isOld, ancestor.trans below⟩, fun block txs forwarded => ?_⟩
        rcases List.mem_cons.mp forwarded with here | later
        · cases here
        · exact above block txs later
      · exact .inr ⟨_ :: before, later, rfl, above⟩
  | @onError tip rest after ih =>
      rcases ih onChain with ⟨from_, above⟩ | ⟨before, later, rfl, above⟩
      · refine .inl ⟨from_, fun block txs forwarded => ?_⟩
        rcases List.mem_cons.mp forwarded with here | later
        · cases here
        · exact above block txs later
      · exact .inr ⟨_ :: before, later, rfl, above⟩

end BlockForks.Sends

theorem mem_streamedBlocks {block : StreamedBlock T}
    (streamed : block ∈ streamedBlocks collect fromSlot toSlot messages) :
    ∃ data txs, .rollForward data txs ∈ messages ∧
      block = ⟨data.hash, data.slotOrZero, txs.length, collect data txs⟩ := by
  obtain ⟨message, handled, isBlock⟩ := List.mem_filterMap.mp streamed
  cases message with
  | rollForward data txs =>
      simp only [NodeMessage.inRange, Option.ite_none_right_eq_some, Option.some.injEq] at isBlock
      exact ⟨data, txs, mem_untilSettled handled, isBlock.2.symm⟩
  | rollBackward point => cases isBlock
  | onError => cases isBlock

/-- A streamed block is as its fork has it. -/
theorem BlockForks.Sends.streamed (sends : forks.Sends contents start messages)
    {block : StreamedBlock T}
    (streamed : block ∈ streamedBlocks collect fromSlot toSlot messages) :
    block.slot = forks.tree.rank block.hash ∧
      block.payload = collect (forks.data block.hash) (contents block.hash) := by
  obtain ⟨data, txs, forwarded, rfl⟩ := mem_streamedBlocks streamed
  obtain ⟨isData, isContents⟩ := sends.delivered forwarded
  have slot : data.slotOrZero = forks.tree.rank data.hash := by
    rw [isData, BlockData.slotOrZero, forks.data_slot, forks.data_hash]
    rfl
  exact ⟨slot, congr (congrArg collect isData) isContents⟩

/-- An element of a list of lists, with what follows it in its own list. -/
theorem exists_of_flatten_eq {α : Type*} {lists : List (List α)} {before after : List α} {value : α}
    (whole : lists.flatten = before ++ value :: after) :
    ∃ list ∈ lists, ∃ front back, list = front ++ value :: back ∧ ∀ other ∈ back, other ∈ after := by
  induction lists generalizing before with
  | nil => cases before <;> cases whole
  | cons list rest ih =>
      rw [List.flatten_cons] at whole
      rcases List.append_eq_append_iff.mp whole with ⟨more, rfl, later⟩ | ⟨more, rfl, here⟩
      · obtain ⟨other, otherMem, found⟩ := ih later
        exact ⟨other, List.mem_cons_of_mem _ otherMem, found⟩
      · cases more with
        | nil =>
            obtain ⟨other, otherMem, found⟩ := @ih [] here.symm
            exact ⟨other, List.mem_cons_of_mem _ otherMem, found⟩
        | cons first more =>
            obtain ⟨rfl, rfl⟩ := List.cons.inj here
            exact ⟨_, List.mem_cons_self, before, more, rfl,
              fun other otherMem => List.mem_append_left _ otherMem⟩

/-- A batch has the block, and the slots of its first and last block enclose the block's. -/
def SpannedBy (batches : List (List (StreamedBlock T))) (hash : BlockHash) (slot : Nat) : Prop :=
  ∃ batch ∈ batches, ∃ first last, batch.head? = some first ∧ batch.getLast? = some last ∧
    hash ∈ batch.map StreamedBlock.hash ∧ first.slot ≤ slot ∧ slot ≤ last.slot

/-- A block of the range on the node's chain, past the intersection, is streamed, and after its
last delivery only blocks on top of it. -/
theorem BlockForks.Sends.last_streamed (sends : forks.Sends contents start messages)
    (low : fromSlot ≤ forks.tree.rank hash) (high : forks.tree.rank hash ≤ toSlot)
    (onChain : forks.OnChain hash (settledTip toSlot start messages))
    (pastStart : ¬ forks.OnChain hash start) :
    ∃ before block after, streamedBlocks collect fromSlot toSlot messages = before ++ block :: after ∧
      block.hash = hash ∧ ∀ other ∈ after, forks.tree.rank hash ≤ other.slot := by
  rcases (sends.untilSettled toSlot).last_delivery onChain with ⟨before, -⟩ | ⟨before, after, cut, above⟩
  · exact absurd before pastStart
  · have slot : (forks.data hash).slotOrZero = forks.tree.rank hash := by
      rw [BlockData.slotOrZero, forks.data_slot]
      rfl
    have delivered : NodeMessage.inRange collect fromSlot toSlot
        (.rollForward (forks.data hash) (contents hash)) =
        some ⟨hash, forks.tree.rank hash, (contents hash).length,
          collect (forks.data hash) (contents hash)⟩ := by
      simp only [NodeMessage.inRange, slot, low, high, and_self, if_true, forks.data_hash]
    have split : streamedBlocks collect fromSlot toSlot messages =
        before.filterMap (NodeMessage.inRange collect fromSlot toSlot) ++
          ⟨hash, forks.tree.rank hash, (contents hash).length,
              collect (forks.data hash) (contents hash)⟩ ::
            after.filterMap (NodeMessage.inRange collect fromSlot toSlot) := by
      rw [streamedBlocks, cut, List.filterMap_append, List.filterMap_cons, delivered]
    refine ⟨_, _, _, split, rfl, fun other otherMem => ?_⟩
    have streamed : other ∈ streamedBlocks collect fromSlot toSlot messages :=
      split ▸ List.mem_append_right _ (List.mem_cons_of_mem _ otherMem)
    obtain ⟨message, handled, isBlock⟩ := List.mem_filterMap.mp otherMem
    rw [(sends.streamed streamed).1]
    cases message with
    | rollForward data txs =>
        simp only [NodeMessage.inRange, Option.ite_none_right_eq_some, Option.some.injEq] at isBlock
        rw [← isBlock.2]
        exact ParentTree.Ancestor.rank_le (above data txs handled)
    | rollBackward point => cases isBlock
    | onError => cases isBlock

/-- Where no batch goes back below the slot of its first block, every block of the range on the
node's chain, past the intersection, is enclosed by one of its batches. -/
theorem BlockForks.Sends.spannedBy (sends : forks.Sends contents start messages)
    {batchBlocks : Nat} (positive : 0 < batchBlocks)
    (fromFirst : ∀ batch ∈ chunk (streamedBlocks collect fromSlot toSlot messages) batchBlocks,
      ∀ first, batch.head? = some first → ∀ block ∈ batch, first.slot ≤ block.slot)
    (low : fromSlot ≤ forks.tree.rank hash) (high : forks.tree.rank hash ≤ toSlot)
    (onChain : forks.OnChain hash (settledTip toSlot start messages))
    (pastStart : ¬ forks.OnChain hash start) :
    SpannedBy (chunk (streamedBlocks collect fromSlot toSlot messages) batchBlocks) hash
      (forks.tree.rank hash) := by
  obtain ⟨before, block, after, split, rfl, above⟩ :=
    @last_streamed T collect _ _ _ _ _ _ _ sends low high onChain pastStart
  obtain ⟨batch, batchMem, front, back, rfl, later⟩ :=
    exists_of_flatten_eq ((flatten_chunk _ positive).trans split)
  have slot : block.slot = forks.tree.rank block.hash :=
    (sends.streamed (split ▸ List.mem_append_right _ List.mem_cons_self)).1
  have here : block ∈ front ++ block :: back := List.mem_append_right _ List.mem_cons_self
  obtain ⟨first, isFirst⟩ : ∃ first, (front ++ block :: back).head? = some first := by
    cases front <;> exact ⟨_, rfl⟩
  have isLast : (front ++ block :: back).getLast? = some ((block :: back).getLast nofun) := by
    rw [List.getLast?_append_of_ne_nil _ (List.cons_ne_nil _ _), List.getLast?_eq_some_getLast]
  refine ⟨_, batchMem, first, _, isFirst, isLast, List.mem_map_of_mem here,
    slot ▸ fromFirst _ batchMem first isFirst block here, ?_⟩
  -- the last block of the batch is this one or one delivered on top of it
  rcases List.mem_cons.mp (List.getLast_mem (List.cons_ne_nil block back)) with isBlock | isBack
  · rw [isBlock, slot]
  · exact above _ (later _ isBack)

end Streamed

end Odatano
