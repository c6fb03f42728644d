import OutboxPattern.Orders.PayloadText
import OutboxPattern.Pipeline.Convergence

/-!
# The pipeline of texts

`Pipeline` hands the payload of an event from the service to the sink as a value.  What travels is
a text, with further texts inside it, and the sink reads the columns `line_items`,
`shipping_address`, `metadata` and `changed_fields` out of those.  Here the records of the topic are
texts, and each one may have the keys of its dicts in an order of its own; a text that is no payload
goes to the dead letter queue.

`TextPipeline.refines` says that the texts make no difference: a run of this pipeline is a run of
the other one.
-/

namespace OutboxPattern

open JsonText (Number NumberState)

variable {V : Type}

/-- How one record is rendered. -/
structure Rendering (V : Type) where
  keyOrder : KeyOrder V
  ascii : Bool

/-- The order service, the topic and a sink that receives texts. -/
structure TextPipeline (V : Type) where
  world : World V
  offset : ℕ → ℕ
  /-- The texts that the sink has received so far, and when. -/
  received : List (Timestamp × String)
  table : OrdersCdc V

/-- What can happen next. -/
inductive TextPipelineAction (V : Type)
  | source (action : Action V)
  | deliver (p : ℕ) (now : Timestamp) (rendering : Rendering V)
  | rewind (p offset : ℕ)

/-- The same action where a record is a value. -/
def TextPipelineAction.value : TextPipelineAction V → PipelineAction V
  | .source action => .source action
  | .deliver p now _ => .deliver p now
  | .rewind p offset => .rewind p offset

namespace TextPipeline

variable (formats : PayloadFormats V) (reader : KeyOrder V) (partition : UUID → ℕ)
  (nulls : NullHandling)

/-- The sink applies one text. -/
def applyText (table : OrdersCdc V) (now : Timestamp) (text : String) : OrdersCdc V :=
  match formats.loads? reader text with
  | some p =>
      match upsert nulls now p (table p.orderId) with
      | some row => Function.update table p.orderId (some row)
      | none => table
  | none => table

def init : TextPipeline V where
  world := World.init
  offset _ := 0
  received := []
  table _ := none

/-- One step of the pipeline. -/
def step [BEq V] (s : TextPipeline V) : TextPipelineAction V → Option (TextPipeline V)
  | .source action => (s.world.step action).map fun world => { s with world }
  | .deliver p now rendering =>
      (Sink.records partition s.world.outbox p)[s.offset p]?.map
        fun event =>
          let text := formats.dumps rendering.keyOrder rendering.ascii event.payload
          { s with
            offset := Function.update s.offset p (s.offset p + 1)
            received := s.received ++ [(now, text)]
            table := applyText formats reader nulls s.table now text }
  | .rewind p offset =>
      if offset ≤ s.offset p then
        some { s with offset := Function.update s.offset p offset }
      else none

/-- The text `text` was received for the record `record`. -/
def Received (text : Timestamp × String) (record : Delivery V) : Prop :=
  text.1 = record.1 ∧ formats.loads? reader text.2 = some record.2.payload

/-- The two pipelines have done the same. -/
structure Matches (s : TextPipeline V) (t : Pipeline V) : Prop where
  world : t.world = s.world
  offset : t.offset = s.offset
  received : List.Forall₂ (Received formats reader) s.received t.received
  table : t.table = s.table

theorem applyText_dumps (writer : KeyOrder V) (ascii : Bool) (table : OrdersCdc V)
    (now : Timestamp) (event : OutboxEvent V) :
    applyText formats reader nulls table now (formats.dumps writer ascii event.payload) =
      applyRecord nulls table (now, event) := by
  rw [applyText, formats.loads?_dumps]
  rfl

variable {formats reader partition nulls} [BEq V]

theorem Matches.step {s s' : TextPipeline V} {t : Pipeline V} (h : Matches formats reader s t)
    {action : TextPipelineAction V}
    (hstep : s.step formats reader partition nulls action = some s') :
    ∃ t', t.step partition nulls action.value = some t' ∧ Matches formats reader s' t' := by
  cases action with
  | source action =>
      obtain ⟨world, hworld, rfl⟩ := Option.map_eq_some_iff.mp hstep
      refine ⟨{ t with world := world }, ?_, rfl, h.offset, h.received, h.table⟩
      show (t.world.step action).map _ = _
      rw [h.world, hworld]
      rfl
  | deliver p now rendering =>
      obtain ⟨event, hevent, rfl⟩ := Option.map_eq_some_iff.mp hstep
      have hrecord : (Sink.records partition t.world.outbox p)[t.offset p]? = some event := by
        rw [h.world, h.offset, hevent]
      have hreceive : t.toSink.receive partition nulls t.world.outbox p now = some _ :=
        Sink.receive_eq_some_iff.mpr ⟨event, hrecord, rfl⟩
      refine ⟨_, (congrArg (Option.map _) hreceive).trans rfl, h.world, ?_, ?_, ?_⟩
      · exact congrArg (fun offset : ℕ → ℕ => Function.update offset p (offset p + 1)) h.offset
      · exact List.rel_append h.received (.cons ⟨rfl, formats.loads?_dumps _ _ _ _⟩ .nil)
      · show applyRecord nulls t.table (now, event) = applyText formats reader nulls s.table now _
        rw [applyText_dumps, h.table]
  | rewind p offset =>
      replace hstep : (if offset ≤ s.offset p then _ else none) = some s' := hstep
      split at hstep
      · next hle =>
          obtain rfl := Option.some.inj hstep
          have hrewind : t.toSink.rewind p offset = some _ :=
            Sink.rewind_eq_some_iff.mpr ⟨h.offset ▸ hle, rfl⟩
          refine ⟨_, (congrArg (Option.map _) hrewind).trans rfl, h.world, ?_, h.received, h.table⟩
          · exact congrArg (fun offsets : ℕ → ℕ => Function.update offsets p offset) h.offset
      · cases hstep

omit [BEq V] in
/-- A text was received for some record. -/
theorem Matches.exists_record {s : TextPipeline V} {t : Pipeline V}
    (h : Matches formats reader s t) {text : Timestamp × String} (htext : text ∈ s.received) :
    ∃ record ∈ t.received, Received formats reader text record := by
  obtain ⟨i, hi, rfl⟩ := List.getElem_of_mem htext
  obtain ⟨hlength, hget⟩ := List.forall₂_iff_get.mp h.received
  have hi' : i < t.received.length := hlength ▸ hi
  exact ⟨t.received[i], List.getElem_mem hi', hget i hi hi'⟩

/-- **The texts make no difference.**  Whatever the order of the keys in each record, a run of the
pipeline of texts is a run of the pipeline with the same requests, the same offsets and the same
replica; and each text that the sink has received is read as the payload of a committed event, which
describes the row that a committed write left. -/
theorem refines {actions : List (TextPipelineAction V)} {s : TextPipeline V}
    (h : Transition.run (step formats reader partition nulls) init actions = some s) :
    ∃ t, Transition.run (Pipeline.step partition nulls) Pipeline.init
        (actions.map TextPipelineAction.value) = some t ∧
      Matches formats reader s t ∧
      ∀ text ∈ s.received, ∃ write ∈ s.world.history, ∃ event ∈ s.world.outbox,
        Corresponds write event ∧ formats.loads? reader text.2 = some event.payload := by
  have hinit : Matches formats reader (init : TextPipeline V) Pipeline.init :=
    ⟨rfl, rfl, .nil, rfl⟩
  obtain ⟨t, hrun, hmatches⟩ :=
    Transition.run_refinement TextPipelineAction.value (fun _ _ _ _ hm hs => hm.step hs) hinit h
  have hinv := Pipeline.inv_of_run hrun
  refine ⟨t, hrun, hmatches, fun text htext => ?_⟩
  obtain ⟨record, hrecord, -, hloads⟩ := hmatches.exists_record htext
  have hevent := hinv.sink.mem_topic hrecord
  rw [hmatches.world] at hevent
  have hledger := hinv.world.ledger
  rw [hmatches.world] at hledger
  obtain ⟨write, hwrite, hcorresponds⟩ := hledger.exists_write hevent
  exact ⟨write, hwrite, record.2, hevent, hcorresponds, hloads⟩

/-- Numerals stand for everything that has no format of its own. -/
def sampleFormats : PayloadFormats ℕ where
  value := .nat
  isoformat :=
    { format := fun instant => String.ofList (Number.ofNat instant).text
      parse := fun text =>
        if h : NumberState.start.accepts text.toList then
          Number.toNat? ⟨text.toList, h⟩
        else none
      parse_format := fun instant => by
        simp only [String.toList_ofList, (Number.ofNat instant).accepts_text, dif_pos]
        exact Number.toNat?_ofNat instant }

/-- The keys in the order in which they were inserted, and in the opposite one. -/
noncomputable def inserted : KeyOrder ℕ where
  arrangement := ⟨id, fun members => .refl members⟩
  entries metadata := metadata.entries.toList
  coe_entries metadata := metadata.entries.coe_toList

noncomputable def reversed : KeyOrder ℕ where
  arrangement := ⟨List.reverse, List.reverse_perm⟩
  entries metadata := metadata.entries.toList.reverse
  coe_entries metadata := by rw [Multiset.coe_reverse, Multiset.coe_toList]

/-- Two updates race, and one event is delivered twice, as two texts. -/
noncomputable def race : List (TextPipelineAction ℕ) :=
  Sample.race.map .source ++
    [.deliver 0 20 ⟨inserted, true⟩, .deliver 0 21 ⟨inserted, false⟩, .rewind 0 1,
      .deliver 0 22 ⟨reversed, true⟩]

theorem refines_race :
    ∃ s : TextPipeline ℕ,
      Transition.run (step sampleFormats reversed (fun _ => 0) .omitted) init race = some s ∧
      s.received.length = 3 ∧
      ∃ t, Transition.run (Pipeline.step (fun _ => 0) .omitted) Pipeline.init
          (race.map TextPipelineAction.value) = some t ∧
        Matches sampleFormats reversed s t ∧
        ∀ text ∈ s.received, ∃ write ∈ s.world.history, ∃ event ∈ s.world.outbox,
          Corresponds write event ∧ sampleFormats.loads? reversed text.2 = some event.payload := by
  have hrun : (Transition.run (step sampleFormats reversed (fun _ => 0) .omitted) init race).map
      (·.received.length) = some 3 := by
    decide
  obtain ⟨s, hs, hlength⟩ := Option.map_eq_some_iff.mp hrun
  exact ⟨s, hs, hlength, refines hs⟩

end TextPipeline

end OutboxPattern
