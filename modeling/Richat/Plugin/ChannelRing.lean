import Richat.Lib.Ring
import Richat.Plugin.Channel

/-!
# What the cells of the plugin channel hold

`RingInv` holds between any two actions, in the middle of a push as well: the cells keep a window of the
messages pushed so far. A cell knows the last position that was written to it, which is how a receiver tells
a message that is gone from one that is not there yet (`RingInv.not_written`, `RingInv.overwritten`).
-/

namespace Richat.Plugin

open Lib

variable {E C : Type}

/-- The item is a message. -/
def Item.Live (item : Item) : Prop := item.data.isSome

/-- The cells; a close does not change what they hold. -/
def Shared.cells (shared : Shared) (i : ℕ) : Item := { shared.buffer i with closed := false }

/-- The ring of `2 ^ k` cells after the messages `log` were pushed. -/
structure RingInv (k : ℕ) (log : List (Pushed E C)) (s : Shared) : Prop where
  mask : s.mask = 2 ^ k - 1
  keeps : Ring.Keeps Item.Live (2 ^ k) (2 ^ k + 1) (log.map (·.item)) s.cells s.state.head s.state.tail
  pos : ∀ i p, log[i]? = some p → p.pos = 2 ^ k + 1 + i
  cell : ∀ i < 2 ^ k, (s.buffer i).pos % 2 ^ k = i ∧ (s.buffer i).pos ≤ s.state.tail
  written : ∀ p, 2 ^ k + 1 ≤ p → p ≤ s.state.tail → p ≤ (s.buffer (p % 2 ^ k)).pos

namespace Shared

theorem getIdx_eq {s : Shared} {k : ℕ} (h : s.mask = 2 ^ k - 1) (pos : ℕ) :
    s.getIdx pos = pos % 2 ^ k := by
  rw [getIdx, h, Nat.and_two_pow_sub_one_eq_mod]

theorem item_eq {s : Shared} {k : ℕ} (h : s.mask = 2 ^ k - 1) (pos : ℕ) :
    s.item pos = s.buffer (pos % 2 ^ k) := by
  rw [item, getIdx_eq h]

theorem buffer_setItem {s : Shared} {k : ℕ} (h : s.mask = 2 ^ k - 1) (pos : ℕ) (item : Item) :
    (s.setItem pos item).buffer = Function.update s.buffer (pos % 2 ^ k) item := by
  rw [setItem, getIdx_eq h]

theorem cells_setItem {s : Shared} {k : ℕ} (h : s.mask = 2 ^ k - 1) (pos : ℕ) (item : Item) :
    (s.setItem pos item).cells =
      Function.update s.cells (pos % 2 ^ k) { item with closed := false } := by
  funext i
  rw [cells, buffer_setItem h]
  by_cases hi : i = pos % 2 ^ k
  · rw [hi, Function.update_self, Function.update_self]
  · rw [Function.update_of_ne hi, Function.update_of_ne hi]
    rfl

end Shared

namespace RingInv

variable {k : ℕ} {log : List (Pushed E C)} {s s' : Shared} {message : ProtobufMessage E C} {data : Bytes}
  {removed removed' : Option Slot}

theorem new {config : ConfigChannel} (hk : nextPowerOfTwo config.maxMessages = 2 ^ k) :
    RingInv (E := E) (C := C) k [] (.new config) := by
  have hpos := Nat.two_pow_pos k
  unfold Shared.new
  rw [hk]
  constructor
  · rfl
  · refine Ring.keeps_nil hpos ?_
    intro i _ h
    cases h
  · intro i p h
    cases h
  · intro i hi
    exact ⟨Nat.mod_eq_of_lt hi, hi.le⟩
  · intro p h₁ h₂
    exact absurd (h₁.trans h₂) (Nat.not_succ_le_self _)

/-- Only the cells and the positions count. -/
theorem congr (h : RingInv k log s) (hmask : s'.mask = s.mask) (hcells : s'.cells = s.cells)
    (hhead : s'.state.head = s.state.head) (htail : s'.state.tail = s.state.tail) :
    RingInv k log s' := by
  have hpos : ∀ i, (s'.buffer i).pos = (s.buffer i).pos := by
    intro i
    have heq := congrArg Item.pos (congrFun hcells i)
    exact heq
  constructor
  · rw [hmask]
    exact h.mask
  · rw [hcells, hhead, htail]
    exact h.keeps
  · exact h.pos
  · intro i hi
    rw [hpos, htail]
    exact h.cell i hi
  · intro p h₁ h₂
    rw [hpos]
    exact h.written p h₁ (htail ▸ h₂)

variable (h : RingInv k log s)

include h

theorem tail_eq : s.state.tail = 2 ^ k + log.length := by
  have := h.keeps.tail_eq
  rw [List.length_map] at this
  omega

theorem getElem?_pushed {i : ℕ} {p : Pushed E C}
    (hi : (log ++ [s.pushed message data])[i]? = some p) : p.pos = 2 ^ k + 1 + i := by
  have htail := h.tail_eq
  rcases Nat.lt_or_ge i log.length with hlt | hge
  · rw [List.getElem?_append_left hlt] at hi
    exact h.pos i p hi
  · rw [List.getElem?_append_right hge] at hi
    obtain ⟨hlt, rfl⟩ := List.getElem?_eq_some_iff.mp hi
    simp only [List.length_singleton] at hlt
    simp only [List.getElem_singleton, Shared.pushed]
    omega

/-- The invariant after the cell of the next position is written. -/
theorem write (hmask : s'.mask = s.mask) (htail : s'.state.tail = s.state.tail + 1) {item : Item}
    (hbuffer : s'.buffer = Function.update s.buffer ((s.state.tail + 1) % 2 ^ k) item)
    (hcells : s'.cells = Function.update s.cells ((s.state.tail + 1) % 2 ^ k) (s.pushed message data).item)
    (hpos : item.pos = s.state.tail + 1)
    (hhead : s'.state.head =
      if s.state.tail + 1 = s.state.head + 2 ^ k then s.state.head + 1 else s.state.head) :
    RingInv k (log ++ [s.pushed message data]) s' := by
  have hmod := Nat.mod_lt (s.state.tail + 1) (Nat.two_pow_pos k)
  constructor
  · exact hmask.trans h.mask
  · rw [hcells, htail, List.map_append]
    exact h.keeps.store (x := (s.pushed message data).item) rfl hhead
  · intro i p hi
    exact h.getElem?_pushed hi
  · intro i hi
    rw [hbuffer, htail]
    by_cases heq : i = (s.state.tail + 1) % 2 ^ k
    · rw [heq, Function.update_self, hpos]
      exact ⟨rfl, le_rfl⟩
    · rw [Function.update_of_ne heq]
      exact ⟨(h.cell i hi).1, (h.cell i hi).2.trans (Nat.le_succ _)⟩
  · intro p h₁ h₂
    rw [hbuffer]
    rw [htail] at h₂
    by_cases heq : p % 2 ^ k = (s.state.tail + 1) % 2 ^ k
    · rw [heq, Function.update_self, hpos]
      exact h₂
    · rw [Function.update_of_ne heq]
      refine h.written p h₁ ?_
      have hne : p ≠ s.state.tail + 1 := by
        rintro rfl
        exact heq rfl
      omega

/-- Pushing a message: it is the last one, and the message that was in its cell leaves. -/
theorem store : RingInv k (log ++ [s.pushed message data]) (s.store message data).1 ∧
    (((s.store message data).1.state.head = s.state.head ∧ (s.store message data).2 = none) ∨
      ∃ old, log[s.state.head - (2 ^ k + 1)]? = some old ∧
        (s.store message data).1.state.head = s.state.head + 1 ∧
        (s.store message data).2 = some old.slot) := by
  have hitem := Shared.item_eq h.mask (s.state.tail + 1)
  have hnext := h.keeps.live_next
  have hcell : s.cells ((s.state.tail + 1) % 2 ^ k) = { s.item (s.state.tail + 1) with closed := false } := by
    rw [Shared.cells, hitem]
  rw [hcell] at hnext
  unfold Shared.store
  dsimp only
  split
  · rename_i d old hdata
    have hfull : s.state.tail + 1 = s.state.head + 2 ^ k := by
      rw [← hnext]
      show (s.item (s.state.tail + 1)).data.isSome
      rw [hdata]
      rfl
    have hold := h.keeps.kept s.state.head le_rfl (by have := Nat.two_pow_pos k; omega)
    rw [← Nat.add_mod_right s.state.head, ← hfull, hcell, List.getElem?_map,
      Option.map_eq_some_iff] at hold
    obtain ⟨p, hp, hpitem⟩ := hold
    refine ⟨h.write rfl rfl (Shared.buffer_setItem h.mask _ _) (Shared.cells_setItem h.mask _ _) rfl
      (if_pos hfull).symm, Or.inr ⟨p, hp, rfl, ?_⟩⟩
    rw [show (s.item (s.state.tail + 1)).slot = p.slot from (congrArg Item.slot hpitem).symm]
  · rename_i hdata
    have hfull : s.state.tail + 1 ≠ s.state.head + 2 ^ k := by
      rw [Ne, ← hnext]
      show ¬ (s.item (s.state.tail + 1)).data.isSome
      rw [hdata]
      exact Bool.false_ne_true
    exact ⟨h.write rfl rfl (Shared.buffer_setItem h.mask _ _) (Shared.cells_setItem h.mask _ _) rfl
      (if_neg hfull).symm, Or.inl ⟨rfl, rfl⟩⟩

/-- The byte loop always finds a message to remove. -/
theorem dropHead_ne_none (hlt : s.state.head < s.state.tail) : s.dropHead removed ≠ none := by
  have hlive := h.keeps.live_kept s.state.head le_rfl hlt.le
  have hlive : (s.buffer (s.state.head % 2 ^ k)).data.isSome := hlive
  rw [← Shared.item_eq h.mask] at hlive
  obtain ⟨message, hdata⟩ := Option.isSome_iff_exists.mp hlive
  intro hnone
  unfold Shared.dropHead at hnone
  simp only [hdata] at hnone
  cases hnone

/-- One turn of the byte loop: the oldest message leaves. -/
theorem dropHead (hlt : s.state.head < s.state.tail) (hdrop : s.dropHead removed = some (s', removed')) :
    RingInv k log s' ∧ s'.state.slots = s.state.slots ∧ s'.state.tail = s.state.tail ∧
      s'.state.head = s.state.head + 1 ∧ s'.state.wakers = s.state.wakers ∧
      ∃ old, log[s.state.head - (2 ^ k + 1)]? = some old ∧
        removed' = some (removed.elim old.slot (max old.slot)) := by
  have hitem := Shared.item_eq h.mask s.state.head
  have hold := h.keeps.kept s.state.head le_rfl hlt.le
  rw [List.getElem?_map, Option.map_eq_some_iff] at hold
  obtain ⟨old, hget, hold⟩ := hold
  have hslot : (s.item s.state.head).slot = old.slot := by
    rw [hitem]
    exact (congrArg Item.slot hold).symm
  unfold Shared.dropHead at hdrop
  dsimp only at hdrop
  split at hdrop
  · cases hdrop
  · rename_i d data hdata
    simp only [Option.some.injEq, Prod.mk.injEq] at hdrop
    obtain ⟨rfl, rfl⟩ := hdrop
    have hmask : ({ s with state := s.state.evict data } : Shared).mask = 2 ^ k - 1 := h.mask
    refine ⟨⟨h.mask, ?_, h.pos, ?_, ?_⟩, rfl, rfl, rfl, rfl, old, hget, by rw [hslot]⟩
    · rw [Shared.cells_setItem hmask]
      exact h.keeps.drop hlt.le Bool.false_ne_true
    · intro i hi
      rw [Shared.buffer_setItem hmask]
      by_cases heq : i = s.state.head % 2 ^ k
      · rw [heq, Function.update_self, hitem, ← heq]
        exact h.cell i hi
      · rw [Function.update_of_ne heq]
        exact h.cell i hi
    · intro p h₁ h₂
      rw [Shared.buffer_setItem hmask]
      by_cases heq : p % 2 ^ k = s.state.head % 2 ^ k
      · rw [heq, Function.update_self, hitem, ← heq]
        exact h.written p h₁ h₂
      · rw [Function.update_of_ne heq]
        exact h.written p h₁ h₂

theorem removeSlots : RingInv k log (s.removeSlots removed) := by
  cases removed with
  | none => exact h
  | some upto => exact h.congr rfl rfl rfl rfl

theorem closeCell {idx : ℕ} : RingInv k log (s.setItem idx { s.item idx with closed := true }) := by
  refine h.congr rfl ?_ rfl rfl
  rw [Shared.cells_setItem h.mask]
  refine Function.update_eq_self_iff.mpr ?_
  rw [Shared.item_eq h.mask, Shared.cells]

/-! ### What a receiver sees of its cell -/

variable {p : ℕ}

/-- A position of the window is read as it was pushed. -/
theorem item_of_kept (hp : s.state.head ≤ p) (hp' : p ≤ s.state.tail) :
    (s.item p).pos = p ∧ (s.item p).data.isSome := by
  have hfirst := h.keeps.first_le
  have hget := h.keeps.kept p hp hp'
  rw [List.getElem?_map, Option.map_eq_some_iff] at hget
  obtain ⟨pushed, hget, hitem⟩ := hget
  rw [Shared.item_eq h.mask]
  constructor
  · have hpos : pushed.pos = (s.buffer (p % 2 ^ k)).pos := congrArg Item.pos hitem
    rw [← hpos, h.pos _ _ hget]
    omega
  · exact h.keeps.live_kept p hp hp'

/-- A receiver that finds a message at its position finds the one that was pushed there. -/
theorem item_of_read {d : PluginNotification × Bytes} (hpos : (s.item p).pos = p)
    (hdata : (s.item p).data = some d) :
    ∃ pushed, log[p - (2 ^ k + 1)]? = some pushed ∧ d = (.ofMessage pushed.message, pushed.data) := by
  rw [Shared.item_eq h.mask] at hpos hdata
  have hlive : Item.Live (s.cells (p % 2 ^ k)) := by
    show (s.buffer (p % 2 ^ k)).data.isSome
    rw [hdata]
    rfl
  obtain ⟨q, hhead, -, hget, -⟩ := h.keeps.read_live hlive
  rw [List.getElem?_map, Option.map_eq_some_iff] at hget
  obtain ⟨pushed, hget, hitem⟩ := hget
  have hq : pushed.pos = (s.buffer (p % 2 ^ k)).pos := congrArg Item.pos hitem
  have hfirst := h.keeps.first_le
  have hlog := h.pos _ _ hget
  obtain rfl : q = p := by omega
  refine ⟨pushed, hget, ?_⟩
  have hd := congrArg Item.data hitem
  have hd : some (.ofMessage pushed.message, pushed.data) = (s.buffer (q % 2 ^ k)).data := hd
  rw [hdata] at hd
  exact (Option.some.inj hd).symm

/-- A cell with an earlier position: the position was not written. -/
theorem not_written (hp : 2 ^ k + 1 ≤ p) (hlt : (s.item p).pos < p) : s.state.tail < p := by
  rw [Shared.item_eq h.mask] at hlt
  by_contra hle
  exact absurd (h.written p hp (not_lt.mp hle)) (not_le.mpr hlt)

/-- A cell with a later position: the message has left the window. -/
theorem overwritten (hlt : p < (s.item p).pos) : p < s.state.head := by
  rw [Shared.item_eq h.mask] at hlt
  obtain ⟨hmod, hle⟩ := h.cell _ (Nat.mod_lt p (Nat.two_pow_pos k))
  have hwidth := h.keeps.width
  by_contra hge
  exact Ring.mod_ne_of_lt hlt (by omega) hmod.symm

/-- A cell that lost its message: the message has left the window. -/
theorem dropped (hpos : (s.item p).pos = p) (hdata : (s.item p).data = none) :
    p < s.state.head := by
  by_contra hge
  have hcell := h.cell _ (Nat.mod_lt p (Nat.two_pow_pos k))
  rw [← Shared.item_eq h.mask, hpos] at hcell
  have hsome := (h.item_of_kept (not_lt.mp hge) hcell.2).2
  rw [hdata] at hsome
  cases hsome

end RingInv

end Richat.Plugin
