import Lasterm.Agent.Batch
import Mathlib.Data.List.Perm.Basic
import Mathlib.Data.List.Flatten

/-!
# The batch loop, run after run

`batch_loop` takes what comes from the readers, or a tick of its timer, one after the other.  The
channels are interleaved as they come, and a tick lets them go in whatever order the map holds
them, so what the loop promises is stated for one channel at a time.

## Main definitions

* `BatchLoop` — what a run of the loop sends.
* `Lets` — the specification: a stretch of outputs of one owner becomes one batch with the number
  of the last, an event is passed on in its place, an output without bytes may leave no trace.

## Main results

* `BatchLoop.follows` — the loop meets the specification on every channel.
* `batch_loop_in_order` — what was sent is what came, in order.
-/

namespace Lasterm.Agent

open List Option OrderedMap

variable {β φ : Type}

/-- The channel an event is of. -/
def ChannelEvent.channelId : ChannelEvent β φ → String
  | .output e => e.channelId
  | .frame e => e.channelId

/-- The channel a batched event is of. -/
def BatchedEvent.channelId : BatchedEvent β φ → String
  | .output b => b.channelId
  | .frame e => e.channelId

/-- What the loop takes: what a reader sent, or the timer's tick. -/
inductive LoopInput (β φ : Type)
  | event (e : ChannelEvent β φ)
  | tick

/-- What came for a channel. -/
def cameFor (id : String) (ins : List (LoopInput β φ)) : List (ChannelEvent β φ) :=
  ins.filterMap fun
    | .event e => if e.channelId = id then some e else none
    | .tick => none

/-- What was sent for a channel. -/
def sentFor (id : String) (out : List (BatchedEvent β φ)) : List (BatchedEvent β φ) :=
  out.filter fun e => decide (e.channelId = id)

/-- The loop took `ins`, sent `out`, and buffers `b`.  A tick sends what `flush_all` does, in
the order the map's iterator happens to have. -/
inductive BatchLoop : List (LoopInput β φ) → Batcher β → List (BatchedEvent β φ) → Prop
  | start : BatchLoop [] .empty []
  | event {ins : List (LoopInput β φ)} {b : Batcher β} {out : List (BatchedEvent β φ)}
      (e : ChannelEvent β φ) (h : BatchLoop ins b out) :
      BatchLoop (ins ++ [.event e]) (b.accept e).1 (out ++ (b.accept e).2)
  | tick {ins : List (LoopInput β φ)} {b : Batcher β} {out flushed : List (BatchedEvent β φ)}
      (h : BatchLoop ins b out) (hp : flushed.Perm b.flushAll.2) :
      BatchLoop (ins ++ [.tick]) (b.flushAll (φ := φ)).1 (out ++ flushed)

/-! ### The specification -/

/-- The outputs as one batch, numbered like the last. -/
def merged (es : List (OutputEvent β)) (last : OutputEvent β) : BatchedOutput β :=
  ⟨last.owner, last.channelId, last.seq, (es ++ [last]).flatMap (·.data)⟩

/-- How what is sent for a channel arises from what comes for it. -/
inductive Lets : List (ChannelEvent β φ) → List (BatchedEvent β φ) → Prop
  | start : Lets [] []
  /-- Outputs of one owner are merged into a batch, numbered like the last of them. -/
  | batch {ins : List (ChannelEvent β φ)} {out : List (BatchedEvent β φ)}
      (es : List (OutputEvent β)) (last : OutputEvent β)
      (howner : ∀ e ∈ es, e.owner = last.owner) (h : Lets ins out) :
      Lets (ins ++ (es ++ [last]).map .output) (out ++ [.output (merged es last)])
  /-- An output without bytes that is merged into no batch. -/
  | nothing {ins : List (ChannelEvent β φ)} {out : List (BatchedEvent β φ)}
      (e : OutputEvent β) (he : e.data = []) (h : Lets ins out) : Lets (ins ++ [.output e]) out
  | frame {ins : List (ChannelEvent β φ)} {out : List (BatchedEvent β φ)} (e : EventFrame φ)
      (h : Lets ins out) : Lets (ins ++ [.frame e]) (out ++ [.frame e])

/-- What a channel's terminal said, byte by byte under its owner, with its events between. -/
inductive Word (β φ : Type)
  | byte (owner : OwnerId) (b : β)
  | frame (e : EventFrame φ)

/-- What an event says, byte by byte, with whom it is for. -/
def ChannelEvent.words : ChannelEvent β φ → List (Word β φ)
  | .output e => e.data.map (.byte e.owner)
  | .frame e => [.frame e]

/-- What a batched event says, byte by byte, with whom it is for. -/
def BatchedEvent.words : BatchedEvent β φ → List (Word β φ)
  | .output b => b.data.map (.byte b.owner)
  | .frame e => [.frame e]

theorem words_outputs {owner : OwnerId} (l : List (OutputEvent β)) (h : ∀ e ∈ l, e.owner = owner) :
    (l.map (ChannelEvent.output (φ := φ))).flatMap (·.words) =
      (l.flatMap (·.data)).map (.byte owner) := by
  induction l with
  | nil => rfl
  | cons e l ih =>
    rw [map_cons, flatMap_cons, ih fun e' he' => h e' (mem_cons_of_mem e he'),
      flatMap_cons, map_append, ← h e mem_cons_self]
    rfl

variable {ins : List (ChannelEvent β φ)} {out : List (BatchedEvent β φ)}

theorem Lets.words (h : Lets ins out) : out.flatMap (·.words) = ins.flatMap (·.words) := by
  induction h with
  | start => rfl
  | batch es last howner _ ih =>
    have howner' : ∀ e ∈ es ++ [last], e.owner = last.owner := by
      intro e he
      rcases mem_append.mp he with he | he
      · exact howner e he
      · rw [mem_singleton.mp he]
    rw [flatMap_append, flatMap_append, ih, words_outputs _ howner']
    simp [BatchedEvent.words, merged]
  | nothing e he _ ih => simp [ih, ChannelEvent.words, he]
  | frame e _ ih =>
    rw [flatMap_append, flatMap_append, ih]
    rfl

variable {e : EventFrame φ}

theorem split_outputs {l m : List (ChannelEvent β φ)} {os : List (OutputEvent β)}
    (h : ins ++ os.map .output = l ++ .frame e :: m) :
    ∃ m₀, m = m₀ ++ os.map .output ∧ ins = l ++ .frame e :: m₀ := by
  rcases append_eq_append_iff.mp h with ⟨k, hl, hos⟩ | ⟨k, hins, hm⟩
  · -- The event would be one of the outputs.
    have hmem : ChannelEvent.frame e ∈ os.map (ChannelEvent.output (φ := φ)) := by
      rw [hos]
      simp
    obtain ⟨o, -, ho⟩ := mem_map.mp hmem
    cases ho
  · cases k with
    | nil =>
      have hmem : ChannelEvent.frame e ∈ os.map (ChannelEvent.output (φ := φ)) := by
        rw [← nil_append (os.map _), ← hm]
        simp
      obtain ⟨o, -, ho⟩ := mem_map.mp hmem
      cases ho
    | cons a k =>
      obtain ⟨rfl, rfl⟩ := cons_eq_cons.mp hm
      exact ⟨k, rfl, hins⟩

/-- **An event is sent in its place**: what came before it went out before it, and what comes
after it goes out after it. -/
theorem Lets.split {l m : List (ChannelEvent β φ)}
    (h : Lets ins out) (hins : ins = l ++ .frame e :: m) :
    ∃ sent later, out = sent ++ .frame e :: later ∧ Lets l sent ∧ Lets m later := by
  induction h generalizing m with
  | start => simp at hins
  | batch es last howner _ ih =>
    obtain ⟨m₀, rfl, hins₀⟩ := split_outputs hins
    obtain ⟨sent, later, rfl, hsent, hlater⟩ := ih hins₀
    exact ⟨sent, later ++ [.output (merged es last)], by simp, hsent, hlater.batch es last howner⟩
  | @nothing ins _ e' he' _ ih =>
    have hone : ins ++ [e'].map .output = l ++ .frame e :: m := hins
    obtain ⟨m₀, rfl, hins₀⟩ := split_outputs hone
    obtain ⟨sent, later, rfl, hsent, hlater⟩ := ih hins₀
    exact ⟨sent, later, rfl, hsent, hlater.nothing e' he'⟩
  | frame e' h ih =>
    rcases eq_nil_or_concat' m with rfl | ⟨m₀, last, rfl⟩
    · obtain ⟨rfl, hlast⟩ := append_inj' hins rfl
      obtain rfl : e' = e := by simpa using hlast
      exact ⟨_, [], rfl, h, .start⟩
    · rw [← cons_append, ← append_assoc] at hins
      obtain ⟨hins₀, hlast⟩ := append_inj' hins rfl
      obtain rfl : ChannelEvent.frame e' = last := by simpa using hlast
      obtain ⟨sent, later, rfl, hsent, hlater⟩ := ih hins₀
      exact ⟨sent, later ++ [.frame e'], by simp, hsent, hlater.frame e'⟩

theorem Lets.eq_nil (h : Lets ins out) (hins : ins = []) : out = [] := by
  cases h with
  | start => rfl
  | batch | nothing | frame => simp at hins

theorem Lets.nothings
    (h : Lets ins out) (held : List (OutputEvent β)) (hempty : held.flatMap (·.data) = []) :
    Lets (ins ++ held.map .output) out := by
  induction held generalizing ins with
  | nil => simpa using h
  | cons e held ih =>
    obtain ⟨he, hrest⟩ := append_eq_nil_iff.mp hempty
    simpa using ih (h.nothing e he) hrest

/-! ### What a channel's buffer holds -/

/-- The buffer holds these outputs: they are of its owner, and its number is the last one's. -/
structure ChannelBuffer.Holds (buf : ChannelBuffer β) (held : List (OutputEvent β)) : Prop where
  data : buf.data = held.flatMap (·.data)
  owner : ∀ e ∈ held, e.owner = buf.owner
  seq : ∀ e ∈ held.getLast?, e.seq = buf.lastSeq

/-- What the loop holds for a channel: its buffer's outputs, or none without a buffer. -/
def Holds (buffer : Option (ChannelBuffer β)) (held : List (OutputEvent β)) : Prop :=
  buffer.elim (held = []) (·.Holds held)

/-- The bytes the loop has buffered for a channel. -/
def Batcher.buffered (b : Batcher β) (id : String) : List β :=
  (b.buffers.get id).elim [] (·.data)

variable {buffer : Option (ChannelBuffer β)}

theorem Holds.data {held : List (OutputEvent β)}
    (h : Holds buffer held) : buffer.elim [] (·.data) = held.flatMap (·.data) := by
  cases buffer with
  | none => rw [show held = [] from h]; rfl
  | some buf => exact ChannelBuffer.Holds.data h

/-- How what came for a channel was sent, and what of it the buffer holds. -/
def Follows (came : List (ChannelEvent β φ)) (sent : List (BatchedEvent β φ))
    (buffer : Option (ChannelBuffer β)) : Prop :=
  ∃ before held, came = before ++ held.map .output ∧ Lets before sent ∧ Holds buffer held

section Buffer

variable {came : List (ChannelEvent β φ)} {sent : List (BatchedEvent β φ)} {buf : ChannelBuffer β}
  {id : String}

theorem Follows.entry (h : Follows came sent buffer)
    (owner : OwnerId) : Follows came sent (some (buffer.getD ⟨owner, [], 0⟩)) := by
  cases buffer with
  | some buf => exact h
  | none =>
    obtain ⟨before, held, hcame, hlets, hheld⟩ := h
    obtain rfl : held = [] := hheld
    exact ⟨before, [], hcame, hlets, rfl, nofun, nofun⟩

/-- **Taking a buffer** sends what it holds as one batch, and leaves it with nothing. -/
theorem Follows.take (h : Follows came sent (some buf)) (hid : ∀ e ∈ came, e.channelId = id) :
    Lets came (sent ++ (buf.take id).1.toList.map .output) ∧ (buf.take id).2.data = [] := by
  obtain ⟨before, held, rfl, hlets, hheld⟩ := h
  have hheld : buf.Holds held := hheld
  unfold ChannelBuffer.take
  by_cases hempty : buf.data = []
  · rw [if_pos (isEmpty_iff.mpr hempty)]
    refine ⟨?_, hempty⟩
    simpa using hlets.nothings held (hheld.data.symm.trans hempty)
  · rw [if_neg fun he => hempty (isEmpty_iff.mp he)]
    refine ⟨?_, rfl⟩
    -- The buffer is not empty, so there is a last output, and the buffer has its number.
    have hne : held ≠ [] := by
      rintro rfl
      exact hempty hheld.data
    obtain ⟨es, last, rfl⟩ := (eq_nil_or_concat' held).resolve_left hne
    have howner : last.owner = buf.owner := hheld.owner last (by simp)
    have hlast : last.channelId = id := hid (.output last) (by simp)
    have hbatch : merged es last = ⟨buf.owner, id, buf.lastSeq, buf.data⟩ := by
      unfold merged
      rw [howner, hlast, hheld.seq last (by simp), hheld.data]
    have hes : ∀ e ∈ es, e.owner = last.owner := fun e he =>
      (hheld.owner e (mem_append_left _ he)).trans howner.symm
    have hsent := hlets.batch es last hes
    rwa [hbatch] at hsent

theorem Follows.of_lets (h : Lets came sent) (hempty : buf.data = []) :
    Follows came sent (some buf) :=
  ⟨came, [], by simp, h, by simpa using hempty, nofun, nofun⟩

theorem Follows.switchOwner (h : Follows came sent (some buf)) (hid : ∀ e ∈ came, e.channelId = id)
    (owner : OwnerId) :
    Follows came (sent ++ (Batcher.switchOwner buf owner id).1.toList.map .output)
      (some (Batcher.switchOwner buf owner id).2) := by
  unfold Batcher.switchOwner
  by_cases howner : buf.owner = owner
  · rw [if_pos howner]
    simpa using h
  · rw [if_neg howner]
    obtain ⟨hlets, hempty⟩ := h.take hid
    exact .of_lets hlets hempty

theorem Follows.flushIfFull (h : Follows came sent (some buf))
    (hid : ∀ e ∈ came, e.channelId = id) :
    Follows came (sent ++ (Batcher.flushIfFull buf id).1.toList.map .output)
      (some (Batcher.flushIfFull buf id).2) := by
  unfold Batcher.flushIfFull
  by_cases hfull : batchMaxBytes ≤ buf.data.length
  · rw [if_pos hfull]
    obtain ⟨hlets, hempty⟩ := h.take hid
    exact .of_lets hlets hempty
  · rw [if_neg hfull]
    simpa using h

theorem Follows.append (h : Follows came sent (some buf)) {e : OutputEvent β}
    (howner : buf.owner = e.owner) :
    Follows (came ++ [.output e]) sent
      (some { buf with data := buf.data ++ e.data, lastSeq := e.seq }) := by
  obtain ⟨before, held, rfl, hlets, hheld⟩ := h
  have hheld : buf.Holds held := hheld
  refine ⟨before, held ++ [e], by simp, hlets, ?_, ?_, ?_⟩
  · simp [hheld.data]
  · intro e' he'
    rcases mem_append.mp he' with he' | he'
    · exact hheld.owner e' he'
    · rw [mem_singleton.mp he', howner]
  · intro e' he'
    obtain rfl : e = e' := by simpa using he'
    rfl

end Buffer

/-! ### One step of the loop, seen by one channel -/

section Sent

@[simp] theorem sentFor_append (id : String) (l l' : List (BatchedEvent β φ)) :
    sentFor id (l ++ l') = sentFor id l ++ sentFor id l' := filter_append ..

theorem sentFor_eq_self {id : String} {l : List (BatchedEvent β φ)}
    (h : ∀ e ∈ l, e.channelId = id) : sentFor id l = l :=
  filter_eq_self.mpr fun e he => decide_eq_true (h e he)

theorem sentFor_eq_nil {id : String} {l : List (BatchedEvent β φ)}
    (h : ∀ e ∈ l, e.channelId ≠ id) : sentFor id l = [] :=
  filter_eq_nil_iff.mpr fun e he hid => h e he (of_decide_eq_true hid)

variable {buf : ChannelBuffer β} {o : BatchedOutput β}

theorem channelId_of_mem_take {id : String} (h : o ∈ (buf.take id).1) : o.channelId = id := by
  unfold ChannelBuffer.take at h
  split at h
  · cases h
  · cases h
    rfl

theorem channelId_of_mem_switchOwner {owner : OwnerId} {id : String}
    (h : o ∈ (Batcher.switchOwner buf owner id).1) : o.channelId = id := by
  unfold Batcher.switchOwner at h
  split at h
  · cases h
  · exact channelId_of_mem_take h

theorem channelId_of_mem_flushIfFull {id : String}
    (h : o ∈ (Batcher.flushIfFull buf id).1) : o.channelId = id := by
  unfold Batcher.flushIfFull at h
  split at h
  · exact channelId_of_mem_take h
  · cases h

theorem channelId_of_mem_accept {b : Batcher β} {e : ChannelEvent β φ} {o : BatchedEvent β φ}
    (h : o ∈ (b.accept e).2) : o.channelId = e.channelId := by
  cases e with
  | output e =>
    obtain ⟨o, ho, rfl⟩ := mem_map.mp h
    rcases mem_append.mp ho with ho | ho
    · exact channelId_of_mem_switchOwner (mem_toList.mp ho)
    · exact channelId_of_mem_flushIfFull (mem_toList.mp ho)
  | frame e =>
    rcases mem_append.mp h with ho | ho
    · obtain ⟨batch, hbatch, rfl⟩ := mem_map.mp ho
      obtain ⟨taken, htaken, hfst⟩ := bind_eq_some_iff.mp (mem_toList.mp hbatch)
      obtain ⟨buf, -, rfl⟩ := map_eq_some_iff.mp htaken
      exact channelId_of_mem_take hfst
    · rw [mem_singleton.mp ho]
      rfl

theorem get_accept_of_ne {b : Batcher β} {e : ChannelEvent β φ} {id : String}
    (h : id ≠ e.channelId) : (b.accept e).1.buffers.get id = b.buffers.get id := by
  cases e with
  | output e => exact get_set_of_ne _ h _
  | frame e =>
    have h : id ≠ e.channelId := h
    have hkept : (((b.buffers.get e.channelId).map (·.take e.channelId)).elim b.buffers fun taken =>
        b.buffers.set e.channelId taken.2).get id = b.buffers.get id := by
      cases b.buffers.get e.channelId with
      | none => rfl
      | some buf => exact get_set_of_ne _ h _
    simp only [Batcher.accept, Batcher.acceptFrame]
    split
    · rw [get_delete_of_ne _ h, hkept]
    · exact hkept

end Sent

section Step

variable {came : List (ChannelEvent β φ)} {sent : List (BatchedEvent β φ)} {b : Batcher β}
  {id : String}

theorem Follows.acceptOutput {e : OutputEvent β} (hid : ∀ e' ∈ came, e'.channelId = e.channelId)
    (h : Follows came sent (b.buffers.get e.channelId)) :
    Follows (came ++ [.output e]) (sent ++ (b.acceptOutput e).2)
      ((b.acceptOutput (φ := φ) e).1.buffers.get e.channelId) := by
  have hid' : ∀ e' ∈ came ++ [.output e], e'.channelId = e.channelId := by
    intro e' he'
    rcases mem_append.mp he' with he' | he'
    · exact hid e' he'
    · rw [mem_singleton.mp he']
      rfl
  have hswitched := (h.entry e.owner).switchOwner hid e.owner
  have hmerged := hswitched.append (e := e) (Batcher.switchOwner_owner ..)
  have hflushed := hmerged.flushIfFull hid'
  rw [append_assoc, ← map_append] at hflushed
  simpa only [Batcher.acceptOutput, get_set_self] using hflushed

/-- **An event of the channel** sends all that came before it, then itself, and leaves
nothing buffered; an exit leaves no buffer either. -/
theorem Follows.acceptFrame (hid : ∀ e' ∈ came, e'.channelId = e.channelId)
    (h : Follows came sent (b.buffers.get e.channelId)) :
    Lets (came ++ [.frame e]) (sent ++ (b.acceptFrame e).2) ∧
      (b.acceptFrame e).1.buffered e.channelId = [] ∧
      (e.endsChannel = true → (b.acceptFrame e).1.buffers.get e.channelId = none) := by
  unfold Batcher.acceptFrame Batcher.buffered
  cases hget : b.buffers.get e.channelId with
  | none =>
    obtain ⟨before, held, hcame, hlets, hheld⟩ := hget ▸ h
    obtain rfl : held = [] := hheld
    obtain rfl : came = before := by simpa using hcame
    refine ⟨by simpa using hlets.frame e, ?_, fun hends => ?_⟩
    · by_cases hends : e.endsChannel = true <;> simp [hends, hget]
    · simp [hends]
  | some buf =>
    obtain ⟨hlets, hempty⟩ := (hget ▸ h : Follows came sent (some buf)).take hid
    refine ⟨?_, ?_, fun hends => ?_⟩
    · simpa using hlets.frame e
    · by_cases hends : e.endsChannel = true <;> simp [hends, hempty]
    · simp [hends]

theorem Follows.of_buffered (h : Lets came sent) (hempty : b.buffered id = []) :
    Follows came sent (b.buffers.get id) := by
  unfold Batcher.buffered at hempty
  cases hget : b.buffers.get id with
  | none => exact ⟨came, [], by simp, h, rfl⟩
  | some buf =>
    rw [hget] at hempty
    exact .of_lets h hempty

theorem sentFor_flushAll (b : Batcher β) (id : String) :
    sentFor id (b.flushAll (φ := φ)).2 =
      (b.buffers.get id).elim [] fun buf => (buf.take id).1.toList.map .output := by
  unfold Batcher.flushAll sentFor
  rw [filter_flatMap, ← flatMap_entries_of_key]
  refine congrArg (b.buffers.entries.flatMap ·) (funext fun entry => ?_)
  by_cases hid : entry.1 = id
  · subst hid
    rw [if_pos rfl]
    refine sentFor_eq_self fun o ho => ?_
    obtain ⟨batch, hbatch, rfl⟩ := mem_map.mp ho
    exact channelId_of_mem_take (mem_toList.mp hbatch)
  · rw [if_neg hid]
    refine sentFor_eq_nil fun o ho => ?_
    obtain ⟨batch, hbatch, rfl⟩ := mem_map.mp ho
    have hbatchId : batch.channelId = entry.1 :=
      channelId_of_mem_take (mem_toList.mp hbatch)
    exact fun heq => hid (hbatchId.symm.trans heq)

theorem buffered_flushAll (b : Batcher β) (id : String) :
    (b.flushAll (φ := φ)).1.buffered id = [] := by
  unfold Batcher.buffered Batcher.flushAll
  rw [get_mapValues]
  cases b.buffers.get id <;> rfl

theorem sentFor_of_perm {flushed : List (BatchedEvent β φ)} (hp : flushed.Perm b.flushAll.2) :
    sentFor id flushed = sentFor id b.flushAll.2 := by
  have hperm : (sentFor id flushed).Perm (sentFor id b.flushAll.2) := hp.filter _
  rw [sentFor_flushAll] at hperm ⊢
  cases hget : b.buffers.get id with
  | none =>
    rw [hget] at hperm
    exact hperm.eq_nil
  | some buf =>
    rw [hget] at hperm
    cases htake : (buf.take id).1 with
    | none =>
      simp only [elim_some, htake] at hperm ⊢
      exact hperm.eq_nil
    | some batch =>
      simp only [elim_some, htake] at hperm ⊢
      exact perm_singleton.mp hperm

theorem Follows.tick (hid : ∀ e ∈ came, e.channelId = id) (h : Follows came sent (b.buffers.get id)) :
    Lets came (sent ++ sentFor id b.flushAll.2) := by
  rw [sentFor_flushAll]
  cases hget : b.buffers.get id with
  | none =>
    obtain ⟨before, held, hcame, hlets, hheld⟩ := hget ▸ h
    obtain rfl : held = [] := hheld
    obtain rfl : came = before := by simpa using hcame
    simpa using hlets
  | some buf => exact ((hget ▸ h : Follows came sent (some buf)).take hid).1

end Step

/-! ### Runs -/

theorem channelId_of_mem_cameFor {id : String} {ins : List (LoopInput β φ)} :
    ∀ e ∈ cameFor id ins, e.channelId = id := by
  intro e he
  obtain ⟨i, -, hi⟩ := mem_filterMap.mp he
  cases i with
  | event e' =>
    obtain ⟨hid, he'⟩ := ite_none_right_eq_some.mp hi
    exact some.inj he' ▸ hid
  | tick => cases hi

@[simp] theorem cameFor_append (id : String) (l l' : List (LoopInput β φ)) :
    cameFor id (l ++ l') = cameFor id l ++ cameFor id l' := filterMap_append

@[simp] theorem cameFor_tick (id : String) : cameFor id [(.tick : LoopInput β φ)] = [] := rfl

theorem cameFor_cons_event (e : EventFrame φ) (l : List (LoopInput β φ)) :
    cameFor e.channelId (.event (.frame e) :: l) = .frame e :: cameFor e.channelId l := by
  have hself : (ChannelEvent.frame e : ChannelEvent β φ).channelId = e.channelId := rfl
  simp [cameFor, hself]

theorem cameFor_event (id : String) (e : ChannelEvent β φ) :
    cameFor id [.event e] = if e.channelId = id then [e] else [] := by
  unfold cameFor
  by_cases h : e.channelId = id <;> simp [h]

variable {ins : List (LoopInput β φ)} {b : Batcher β} {out : List (BatchedEvent β φ)}

/-- **The loop meets the specification on every channel.** -/
theorem BatchLoop.follows (h : BatchLoop ins b out) (id : String) :
    Follows (cameFor id ins) (sentFor id out) (b.buffers.get id) := by
  induction h with
  | start => exact ⟨[], [], rfl, .start, rfl⟩
  | @event ins b out e h ih =>
    rw [cameFor_append, sentFor_append, cameFor_event]
    by_cases hid : e.channelId = id
    · subst hid
      rw [if_pos rfl, sentFor_eq_self fun o => channelId_of_mem_accept]
      cases e with
      | output e => exact ih.acceptOutput channelId_of_mem_cameFor
      | frame e =>
        obtain ⟨hlets, hempty, -⟩ := ih.acceptFrame channelId_of_mem_cameFor
        exact .of_buffered hlets hempty
    · have hnone : sentFor id (b.accept e).2 = [] :=
        sentFor_eq_nil fun o ho heq => hid ((channelId_of_mem_accept ho).symm.trans heq)
      rw [if_neg hid, hnone, append_nil, append_nil, get_accept_of_ne (Ne.symm hid)]
      exact ih
  | @tick ins b out flushed h hp ih =>
    rw [cameFor_append, sentFor_append, cameFor_tick, append_nil, sentFor_of_perm hp]
    exact .of_buffered (ih.tick channelId_of_mem_cameFor) (buffered_flushAll b id)

/-- After a tick the buffers are those `flush_all` left. -/
theorem BatchLoop.of_tick (h : BatchLoop (ins ++ [.tick]) b out) :
    ∃ b₀ : Batcher β, (b₀.flushAll (φ := φ)).1 = b := by
  generalize hins : ins ++ [.tick] = l at h
  cases h with
  | start => simp at hins
  | event e h =>
    have hlast := (append_inj' hins rfl).2
    cases hlast
  | @tick _ b₀ _ _ h hp => exact ⟨b₀, rfl⟩

/-- The bytes buffered for a channel, under the owner they are buffered for. -/
def Batcher.bufferedWords (b : Batcher β) (id : String) : List (Word β φ) :=
  (b.buffers.get id).elim [] fun buf => buf.data.map (.byte buf.owner)

theorem Holds.words {held : List (OutputEvent β)} (h : Holds buffer held) :
    (buffer.elim [] fun buf => buf.data.map (Word.byte buf.owner) : List (Word β φ)) =
      (held.map ChannelEvent.output).flatMap (·.words) := by
  cases buffer with
  | none =>
    rw [show held = [] from h]
    rfl
  | some buf =>
    have h : buf.Holds held := h
    rw [words_outputs held h.owner, elim_some, h.data]

/-- Once an event is the last that came for a channel, nothing is buffered for it; once its
exit is, it has no buffer. -/
theorem BatchLoop.after_frame (h : BatchLoop ins b out) {id : String}
    (hlast : (cameFor id ins).getLast? = some (.frame e)) :
    b.buffered id = [] ∧ (e.endsChannel = true → b.buffers.get id = none) := by
  induction h with
  | start => cases hlast
  | @event ins b out e' h ih =>
    rw [cameFor_append, cameFor_event] at hlast
    by_cases hid : e'.channelId = id
    · subst hid
      rw [if_pos rfl, getLast?_concat] at hlast
      cases hlast
      obtain ⟨-, hempty, hnone⟩ := (h.follows e.channelId).acceptFrame channelId_of_mem_cameFor
      exact ⟨hempty, hnone⟩
    · rw [if_neg hid, append_nil] at hlast
      rw [Batcher.buffered, get_accept_of_ne (Ne.symm hid)]
      exact ih hlast
  | @tick ins b out flushed h hp ih =>
    rw [cameFor_append, cameFor_tick, append_nil] at hlast
    refine ⟨buffered_flushAll b id, fun hends => ?_⟩
    rw [Batcher.flushAll, get_mapValues, (ih hlast).2 hends]
    rfl

/-- **What was sent is what came, in order.**  For every interleaving of the channels and the
ticks, and for each channel: word for word, what was sent followed by what is buffered is
what came; each batch merges outputs of one owner and has the number of the last of them; an
event went out after all that came before it and before all that came after it, so that
nothing follows an exit but what came for the channel after it; after a tick, or once an event
is the last that came, nothing is buffered, and an exit leaves no buffer. -/
theorem batch_loop_in_order (h : BatchLoop ins b out) (id : String) :
    (sentFor id out).flatMap (·.words) ++ b.bufferedWords id =
        (cameFor id ins).flatMap (·.words) ∧
    (∃ (before : List (ChannelEvent β φ)) (held : List (OutputEvent β)),
      cameFor id ins = before ++ held.map .output ∧ Lets before (sentFor id out) ∧
        b.buffered id = held.flatMap (·.data)) ∧
    (∀ pre e post, ins = pre ++ .event (.frame e) :: post → e.channelId = id →
      ∃ sent later, sentFor id out = sent ++ .frame e :: later ∧
        sent.flatMap (·.words) = (cameFor id pre).flatMap (·.words) ∧
        later.flatMap (·.words) ++ b.bufferedWords id = (cameFor id post).flatMap (·.words) ∧
        (cameFor id post = [] → later = [])) ∧
    (∀ pre, ins = pre ++ [.tick] → b.buffered id = []) ∧
    ∀ e, (cameFor id ins).getLast? = some (.frame e) →
      b.buffered id = [] ∧ (e.endsChannel = true → b.buffers.get id = none) := by
  obtain ⟨before, held, hcame, hlets, hheld⟩ := h.follows id
  have hwords : b.bufferedWords id = (held.map ChannelEvent.output).flatMap (·.words) :=
    hheld.words (φ := φ)
  refine ⟨?_, ⟨before, held, hcame, hlets, hheld.data⟩, ?_, ?_, fun e hlast => h.after_frame hlast⟩
  · rw [hlets.words, hwords, hcame, flatMap_append]
  · rintro pre e post rfl rfl
    rw [cameFor_append, cameFor_cons_event] at hcame
    obtain ⟨m, hm, hbefore⟩ := split_outputs hcame.symm
    obtain ⟨sent, later, hout, hsent, hlater⟩ := hlets.split hbefore
    refine ⟨sent, later, hout, hsent.words, ?_, fun hpost => ?_⟩
    · rw [hlater.words, hwords, hm, flatMap_append]
    · rw [hpost] at hm
      exact hlater.eq_nil (append_eq_nil_iff.mp hm.symm).1
  · rintro pre rfl
    obtain ⟨b₀, rfl⟩ := h.of_tick
    exact buffered_flushAll b₀ id

/-- A terminal prints, exits, and one restarted under its id prints for another hub, with ticks
between. -/
def restarted : List (LoopInput UInt8 String) :=
  [.event (.output ⟨⟨"a"⟩, "c", 1, [104]⟩), .event (.output ⟨⟨"a"⟩, "c", 2, [105]⟩),
    .event (.frame ⟨⟨"a"⟩, "c", "exit", true⟩), .event (.output ⟨⟨"b"⟩, "c", 1, [33]⟩), .tick]

/-- What the loop sends of it. -/
def restartedSent : List (BatchedEvent UInt8 String) :=
  [.output ⟨⟨"a"⟩, "c", 2, [104, 105]⟩, .frame ⟨⟨"a"⟩, "c", "exit", true⟩,
    .output ⟨⟨"b"⟩, "c", 1, [33]⟩]

theorem batchLoop_restarted : ∃ b, BatchLoop restarted b restartedSent := by
  refine ⟨_, BatchLoop.tick (.event _ (.event _ (.event _ (.event _ .start)))) ?_⟩
  exact Perm.refl _

theorem batch_loop_in_order_restarted :
    ∃ b, BatchLoop restarted b restartedSent ∧ b.buffered "c" = [] ∧
      ∃ sent later, sentFor "c" restartedSent =
        sent ++ .frame ⟨⟨"a"⟩, "c", "exit", true⟩ :: later := by
  obtain ⟨b, hb⟩ := batchLoop_restarted
  have horder := batch_loop_in_order hb "c"
  obtain ⟨sent, later, hsent, -⟩ := horder.2.2.1 (restarted.take 2) ⟨⟨"a"⟩, "c", "exit", true⟩
    (restarted.drop 3) rfl rfl
  exact ⟨b, hb, horder.2.2.2.1 (restarted.take 4) rfl, sent, later, hsent⟩

/-- **The loop sends for a channel after its exit**: a restart reuses the channel's id, and what
the new terminal says goes out under it. -/
theorem sent_after_exit :
    ¬∀ (ins : List (LoopInput UInt8 String)) (b : Batcher UInt8)
      (out : List (BatchedEvent UInt8 String)), BatchLoop ins b out →
        ∀ sent e later, out = sent ++ .frame e :: later → e.endsChannel = true →
          sentFor e.channelId later = [] := by
  intro h
  obtain ⟨b, hb⟩ := batchLoop_restarted
  have hnone := h restarted b restartedSent hb [.output ⟨⟨"a"⟩, "c", 2, [104, 105]⟩]
    ⟨⟨"a"⟩, "c", "exit", true⟩ [.output ⟨⟨"b"⟩, "c", 1, [33]⟩] rfl rfl
  cases hnone

end Lasterm.Agent
