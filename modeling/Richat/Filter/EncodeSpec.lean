import Richat.Filter.Encode
import Richat.Lib.ProtobufTree

/-!
# The length pass of the encoder

The trees are the fields of a message as a client is to find them. For every message the two passes agree
on its length, and its bytes are read back as its tree.
-/

namespace Richat.Filter

open Lib.Protobuf

/-! ### The fields of the messages -/

/-- A field that is left out when it is zero. -/
def numberTree (tag : ℕ) (value : UInt64) : List Tree :=
  if value ≠ 0 then [.varint tag value.toNat] else []

def trueTree (tag : ℕ) (value : Bool) : List Tree := if value then [.varint tag 1] else []

def bytesTree (tag : ℕ) (value : Bytes) : List Tree := if ¬ value.isEmpty then [.bytes tag value] else []

/-- A message of a generated type, whose own fields are not looked at. -/
def generatedTree {α : Type} [WireMessage α] (tag : ℕ) (msg : Option α) : List Tree :=
  msg.elim [] fun msg => [.bytes tag (WireMessage.encodeRaw msg)]

namespace UpdateOneofLimitedEncodeAccountInner

def trees (m : UpdateOneofLimitedEncodeAccountInner) : List Tree :=
  [.bytes 1 m.pubkey.val] ++ numberTree 2 m.lamports ++ [.bytes 3 m.owner.val] ++ trueTree 4 m.executable ++
    numberTree 5 m.rentEpoch ++ bytesTree 6 m.data ++ numberTree 7 m.writeVersion ++
    m.txnSignature.elim [] fun value => [.bytes 8 value]

end UpdateOneofLimitedEncodeAccountInner

namespace UpdateOneofLimitedEncodeAccount

/-- A slice is copied: its fields are those of the upstream. -/
def tree : UpdateOneofLimitedEncodeAccount → Tree
  | slice bytes => .bytes 2 bytes
  | fields account slot isStartup bankId =>
    .message 2 (fields account slot isStartup bankId).encodedLen (fields account slot isStartup bankId).encodeRaw
      ([.message 1 account.encodedLen account.encodeRaw account.trees] ++ numberTree 2 slot ++
        (if ¬ isStartup then [.varint 3 0] else []) ++ bankId.elim [] fun value => [.varint 4 value.toNat])

end UpdateOneofLimitedEncodeAccount

namespace UpdateOneofLimitedEncodeTransactionStatus

def trees (m : UpdateOneofLimitedEncodeTransactionStatus) : List Tree :=
  numberTree 1 m.slot ++ bytesTree 2 m.signature ++ trueTree 3 m.isVote ++ numberTree 4 m.index ++
    generatedTree 5 m.err ++ numberTree 6 m.bankId

end UpdateOneofLimitedEncodeTransactionStatus

namespace UpdateOneofLimitedEncodeBlock

def trees (m : UpdateOneofLimitedEncodeBlock) : List Tree :=
  numberTree 1 m.slot ++ bytesTree 2 (utf8 m.blockhash) ++ generatedTree 3 m.rewards ++
    generatedTree 4 m.blockTime ++ generatedTree 5 m.blockHeight ++ m.transactions.map (.bytes 6) ++
    numberTree 7 m.parentSlot ++ bytesTree 8 (utf8 m.parentBlockhash) ++
    numberTree 9 m.executedTransactionCount ++ numberTree 10 m.updatedAccountCount ++
    m.accounts.map (Nests.treeOf 11 (·.trees)) ++ numberTree 12 m.entriesCount ++
    m.entries.map (.bytes 13) ++ numberTree 14 m.bankId

end UpdateOneofLimitedEncodeBlock

namespace UpdateOneofLimitedEncode

def tree : UpdateOneofLimitedEncode → Tree
  | account msg => msg.tree
  | slot slice => .bytes 3 slice
  | transaction slice => .bytes 4 slice
  | transactionStatus msg => .message 10 msg.encodedLen msg.encodeRaw msg.trees
  | block msg => .message 5 msg.encodedLen msg.encodeRaw msg.trees
  | blockMeta slice => .bytes 7 slice
  | entry slice => .bytes 8 slice

end UpdateOneofLimitedEncode

/-- The update of a generated type, as one field. -/
def prostTree : Proto.UpdateOneof → Tree
  | .account update => .bytes 2 (WireMessage.encodeRaw update)
  | .slot update => .bytes 3 (WireMessage.encodeRaw update)
  | .transaction update => .bytes 4 (WireMessage.encodeRaw update)
  | .transactionStatus update => .bytes 10 (WireMessage.encodeRaw update)
  | .block update => .bytes 5 (WireMessage.encodeRaw update)
  | .ping => .bytes 6 []
  | .pong id => .bytes 9 (plain int32.encode 0 1 id)
  | .blockMeta update => .bytes 7 (WireMessage.encodeRaw update)
  | .entry update => .bytes 8 (WireMessage.encodeRaw update)
  | .blockFooter update => .bytes 12 (WireMessage.encodeRaw update)
  | .entryUpdateParent update => .bytes 13 (WireMessage.encodeRaw update)

namespace SubscribeUpdateMessage

def updateTree : SubscribeUpdateMessage → Tree
  | limited msg => msg.update.tree
  | prost msg => prostTree msg.update

def trees (msg : SubscribeUpdateMessage) : List Tree :=
  (msg.filters.map fun filter => .bytes 1 (utf8 filter)) ++ [msg.updateTree] ++
    [.bytes 11 (WireMessage.encodeRaw msg.createdAt)]

end SubscribeUpdateMessage

/-! ### The two passes agree -/

section

variable {tag : ℕ} (hpos : 0 < tag) (htag : tag < 2 ^ 29)
include hpos htag

theorem nests_number (value : UInt64) :
    Nests (if value ≠ 0 then uint64.encode tag value else [])
      (if value ≠ 0 then uint64.encodedLen tag value else 0) (numberTree tag value) :=
  .ite fun _ => .varint hpos htag value

theorem nests_true (value : Bool) :
    Nests (if value then bool.encode tag value else []) (if value then bool.encodedLen tag value else 0)
      (trueTree tag value) := by
  cases value
  · exact .nil
  · exact .bool hpos htag true

theorem nests_bytes (value : Bytes) :
    Nests (if ¬ value.isEmpty then bytesEncode tag value else [])
      (if ¬ value.isEmpty then bytesEncodedLen tag value else 0) (bytesTree tag value) :=
  .ite fun _ => .bytes hpos htag value

/-- A generated type computes its length from its bytes. -/
theorem nests_generated {α : Type} [WireMessage α]
    (hlen : ∀ msg : α, WireMessage.encodedLen msg = (WireMessage.encodeRaw msg).length) (msg : Option α) :
    Nests (msg.elim [] (message.encode tag)) (msg.elim 0 (message.encodedLen tag)) (generatedTree tag msg) := by
  refine .elim msg fun msg => ?_
  have h := Nests.bytes hpos htag (WireMessage.encodeRaw msg)
  unfold bytesEncode bytesEncodedLen at h
  unfold message.encode message.encodedLen
  rwa [hlen]

theorem nests_slices (slices : List Bytes) :
    Nests (UpdateOneofLimitedEncodeBlock.encodeSlices tag slices)
      (UpdateOneofLimitedEncodeBlock.encodedLenSlices tag slices) (slices.map (.bytes tag)) := by
  have hlen : UpdateOneofLimitedEncodeBlock.encodedLenSlices tag slices =
      (slices.map (bytesEncodedLen tag)).sum := by
    rw [UpdateOneofLimitedEncodeBlock.encodedLenSlices, Writes.sum_key]
    refine congrArg List.sum (List.map_congr_left fun slice _ => ?_)
    rw [bytesEncodedLen]
    omega
  have hall := Nests.flatMap (fun slice => Nests.bytes hpos htag slice) slices
  rw [← List.map_eq_flatMap] at hall
  rw [hlen]
  exact hall

end

theorem UpdateOneofLimitedEncodeAccountInner.nests (m : UpdateOneofLimitedEncodeAccountInner) :
    Nests m.encodeRaw m.encodedLen m.trees := by
  refine .append (.append (.append (.append (.append (.append (.append ?_ ?_) ?_) ?_) ?_) ?_) ?_) ?_
  · exact .bytes (by decide) (by decide) m.pubkey.val
  · exact nests_number (by decide) (by decide) m.lamports
  · exact .bytes (by decide) (by decide) m.owner.val
  · exact nests_true (by decide) (by decide) m.executable
  · exact nests_number (by decide) (by decide) m.rentEpoch
  · exact nests_bytes (by decide) (by decide) m.data
  · exact nests_number (by decide) (by decide) m.writeVersion
  · exact .elim m.txnSignature fun value => .bytes (by decide) (by decide) value

/-- The account as the field of the update. -/
theorem UpdateOneofLimitedEncodeAccount.nests (m : UpdateOneofLimitedEncodeAccount) :
    Nests (encodeKey 2 .lengthDelimited ++ encodeVarint m.encodedLen ++ m.encodeRaw)
      (keyLen 2 + encodedLenVarint m.encodedLen + m.encodedLen) [m.tree] := by
  cases m with
  | slice bytes => exact .bytes (by decide) (by decide) bytes
  | fields account slot isStartup bankId =>
    refine .nested (by decide) (by decide) (.append (.append (.append ?_ ?_) ?_) ?_)
    · exact .nested (by decide) (by decide) account.nests
    · exact nests_number (by decide) (by decide) slot
    · refine .ite fun hstartup => ?_
      obtain rfl : isStartup = false := by simpa using hstartup
      exact .bool (by decide) (by decide) false
    · exact .elim bankId fun value => .varint (by decide) (by decide) value

theorem UpdateOneofLimitedEncodeTransactionStatus.nests (m : UpdateOneofLimitedEncodeTransactionStatus) :
    Nests m.encodeRaw m.encodedLen m.trees := by
  refine .append (.append (.append (.append (.append ?_ ?_) ?_) ?_) ?_) ?_
  · exact nests_number (by decide) (by decide) m.slot
  · exact nests_bytes (by decide) (by decide) m.signature
  · exact nests_true (by decide) (by decide) m.isVote
  · exact nests_number (by decide) (by decide) m.index
  · exact nests_generated (by decide) (by decide) (fun _ => rfl) m.err
  · exact nests_number (by decide) (by decide) m.bankId

theorem UpdateOneofLimitedEncodeBlock.nests (m : UpdateOneofLimitedEncodeBlock) :
    Nests m.encodeRaw m.encodedLen m.trees := by
  refine .append (.append (.append (.append (.append (.append (.append (.append (.append (.append
    (.append (.append (.append ?_ ?_) ?_) ?_) ?_) ?_) ?_) ?_) ?_) ?_) ?_) ?_) ?_) ?_
  · exact nests_number (by decide) (by decide) m.slot
  · exact nests_bytes (by decide) (by decide) (utf8 m.blockhash)
  · exact nests_generated (by decide) (by decide) (fun _ => rfl) m.rewards
  · exact nests_generated (by decide) (by decide) (fun _ => rfl) m.blockTime
  · exact nests_generated (by decide) (by decide) (fun _ => rfl) m.blockHeight
  · exact nests_slices (by decide) (by decide) m.transactions
  · exact nests_number (by decide) (by decide) m.parentSlot
  · exact nests_bytes (by decide) (by decide) (utf8 m.parentBlockhash)
  · exact nests_number (by decide) (by decide) m.executedTransactionCount
  · exact nests_number (by decide) (by decide) m.updatedAccountCount
  · exact .messageRepeated (by decide) (by decide)
      UpdateOneofLimitedEncodeAccountInner.nests m.accounts
  · exact nests_number (by decide) (by decide) m.entriesCount
  · exact nests_slices (by decide) (by decide) m.entries
  · exact nests_number (by decide) (by decide) m.bankId

theorem UpdateOneofLimitedEncode.nests (update : UpdateOneofLimitedEncode) :
    Nests update.encode update.encodedLen [update.tree] := by
  unfold encode encodedLen
  cases update with
  | account msg => exact msg.nests
  | slot slice => exact .bytes (show 0 < 3 by decide) (by decide) slice
  | transaction slice => exact .bytes (show 0 < 4 by decide) (by decide) slice
  | transactionStatus msg => exact .nested (show 0 < 10 by decide) (show 10 < 2 ^ 29 by decide) msg.nests
  | block msg => exact .nested (show 0 < 5 by decide) (show 5 < 2 ^ 29 by decide) msg.nests
  | blockMeta slice => exact .bytes (show 0 < 7 by decide) (by decide) slice
  | entry slice => exact .bytes (show 0 < 8 by decide) (by decide) slice

theorem nests_prost (update : Proto.UpdateOneof) :
    Nests update.encode update.encode.length [prostTree update] := by
  have h : ∀ {tag : ℕ} (value : Bytes), 0 < tag → tag < 2 ^ 29 →
      Nests (bytesEncode tag value) (bytesEncode tag value).length [.bytes tag value] :=
    fun value hpos htag => ⟨fun _ => rfl, (Nests.bytes hpos htag value).reads⟩
  cases update <;> exact h _ (by decide) (by decide)

theorem SubscribeUpdateMessage.nests (msg : SubscribeUpdateMessage) :
    Nests msg.encodeRaw msg.encodedLen msg.trees := by
  refine .append (.append ?_ ?_) ?_
  · have h := Nests.flatMap
      (fun filter => Nests.bytes (show 0 < 1 by decide) (by decide) (utf8 filter)) msg.filters
    rwa [← List.map_eq_flatMap] at h
  · cases msg with
    | limited msg => exact msg.update.nests
    | prost msg => exact nests_prost msg.update
  · exact .bytes (by decide) (by decide) (WireMessage.encodeRaw msg.createdAt)

/-! ### What a client gets -/

theorem SubscribeUpdateMessage.encodeReserved_ok {msg : SubscribeUpdateMessage} {buf out : Bytes}
    (h : msg.encodeReserved buf = .ok out) :
    out = buf ++ msg.encodeRaw ∧ msg.encodedLen = msg.encodeRaw.length ∧ ReadsAs msg.encodeRaw msg.trees := by
  unfold encodeReserved at h
  split at h
  · rename_i hfits
    have hlen : msg.encodedLen = msg.encodeRaw.length := by
      refine msg.nests.measures (.inr ?_)
      unfold isizeMax at hfits
      omega
    refine ⟨by simpa using h.symm, hlen, msg.nests.reads ?_⟩
    unfold isizeMax at hfits
    omega
  · simp at h

/-- What is appended for an update has the length that was reserved for it, and the client reads it with
the nesting it was built with: before every nested message stands the length of its bytes. -/
theorem FilteredUpdate.encode_readsAs (update : FilteredUpdate) (buf out : Bytes)
    (h : update.encode buf = .ok out) :
    ∃ msg, messageOf update.filters update.filteredUpdate = .ok msg ∧ out = buf ++ msg.encodeRaw ∧
      msg.encodedLen = msg.encodeRaw.length ∧ ReadsAs msg.encodeRaw msg.trees := by
  unfold encode at h
  cases hmsg : messageOf update.filters update.filteredUpdate with
  | error e => simp [hmsg, bind, Except.bind] at h
  | ok msg =>
    simp only [hmsg, bind, Except.bind] at h
    exact ⟨msg, rfl, SubscribeUpdateMessage.encodeReserved_ok h⟩

/-- Two bytes of the data of an account, which is put together again for them. -/
def FilteredUpdate.slicedAccount : FilteredUpdate where
  filters := []
  filteredUpdate := .account
    (.limited
      { pubkey := default
        owner := default
        lamports := 300
        executable := true
        rentEpoch := 0
        data := ⟨0, 4⟩
        txnSignatureOffset := none
        writeVersion := 4
        slot := 7
        isStartup := false
        bankId := some 0
        createdAt := ⟨1, 0⟩
        buffer := [10, 11, 12, 13, 9]
        accountOffset := 0
        range := ⟨0, 5⟩ })
    [⟨1, 3⟩]

theorem FilteredUpdate.encode_readsAs_slicedAccount :
    ∃ out, ∃ msg : SubscribeUpdateMessage, slicedAccount.encode [] = .ok out ∧ out = msg.encodeRaw ∧
      msg.encodedLen = msg.encodeRaw.length ∧ ReadsAs msg.encodeRaw msg.trees := by
  obtain ⟨out, hout⟩ : ∃ out, slicedAccount.encode [] = .ok out := ⟨_, rfl⟩
  obtain ⟨msg, -, heq, hlen, hreads⟩ := encode_readsAs slicedAccount [] out hout
  exact ⟨out, msg, hout, heq, hlen, hreads⟩

end Richat.Filter
