import Quorum.Proofs.Application.Solo

/-!
# The keeper sends what the peers signed

Signatures and transactions of earlier attempts stay in the agreed data, so that what stands there
is fresh follows only from the instance that came before.

* `Verdict.of_signed`, `Verdict.of_finalized` : what the rounds that lead to the finalization and to
  the validation write when they end as planned;
* `SafeTx.ofSnapshot_of_revises` : the transaction of the agreed data depends on three keys only;
* `Application.Signed`, `Application.Sent` : what the finalization and the validation come from;
* `StartedBy.ended` : what ended the instance before the last one;
* `StartedBy.signed`, `StartedBy.sent` : what the keeper finds, and what the peers validate;
* `keeper_sends_what_was_signed` : this holds whenever one of these rounds runs.
-/

namespace Quorum

open Snapshot

/-! ## Verdicts of the two rounds -/

namespace Round

variable {r : Round} {data : Snapshot} {height : Height} {timeout : UInt64} {u : Update}

theorem Verdict.of_signed (h : r.Verdict data height timeout u .done)
    (hk : r.kind = .collectSignature) : ∃ sigs : SortedMap PublicKey Signature,
      u = [Update.set Key.signatures sigs] ∧ ∀ pk sig, sigs.get? pk = some sig ↔
        ∃ p, r.payloads.get? pk = some p ∧ p.vote = .signature sig := by
  generalize he : Event.done = e at h
  cases h with
  | agreed strategy =>
    rw [hk] at strategy
    rcases strategy with hs | hs <;> cases hs
  | registered kind => cases kind.symm.trans hk
  | signed kind enough get => exact ⟨_, rfl, get⟩
  | noMajority | timeout => cases he

theorem Verdict.of_finalized (h : r.Verdict data height timeout u .done)
    (hk : r.kind = .finalization) : ∃ pk p tx, r.payloads.get? pk = some p ∧
      p.vote = .finalization (some tx) ∧ u = [Update.set Key.finalTx tx] := by
  generalize he : Event.done = e at h
  cases h with
  | @agreed pk p u e strategy held get settles =>
    rw [hk] at settles
    generalize hv : p.vote = v at settles
    cases settles with
    | finalized tx => exact ⟨pk, p, tx, get, hv, rfl⟩
    | unfinalized => cases he
  | registered kind => cases kind.symm.trans hk
  | signed kind => cases kind.symm.trans hk
  | noMajority | timeout => cases he

end Round

/-! ## The transaction of the agreed data -/

theorem Snapshot.periodCount_congr {s t : Snapshot}
    (h : t.db.get? Key.periodCount = s.db.get? Key.periodCount) : t.periodCount = s.periodCount := by
  unfold Snapshot.periodCount readOr
  rw [read?_congr h]

/-- Data that is revised under other keys calls for the same transaction. -/
theorem SafeTx.ofSnapshot_of_revises {s t : Snapshot} {keys : List String} (h : s.Revises t keys)
    (hk : ∀ key ∈ [Key.periodCount, Key.keeper, Key.randomness], key ∉ keys) :
    SafeTx.ofSnapshot t = SafeTx.ofSnapshot s := by
  have hread {α : Type} [Wire.Format α] {key : String}
      (hkey : key ∈ [Key.periodCount, Key.keeper, Key.randomness]) :
      t.read? α key = s.read? α key := read?_congr (h.frame key (hk key hkey))
  have hperiods := periodCount_congr (h.frame Key.periodCount (hk _ (by simp)))
  have hkeeper : t.keeper = s.keeper := by
    unfold Snapshot.keeper Snapshot.read
    rw [hread (by simp)]
  have hrandomness : t.randomness = s.randomness := by
    unfold Snapshot.randomness Snapshot.read
    rw [hread (by simp)]
  unfold SafeTx.ofSnapshot
  rw [hperiods, hkeeper, hrandomness]

/-- The keeper that finds a transaction and signatures sends them. -/
theorem Stage.finalizeFrom_eq {s : Snapshot} {tx : SafeTx} {sigs : SortedMap PublicKey Signature}
    (htx : SafeTx.ofSnapshot s = .ok tx) (hsigs : s.signatures = .ok sigs) :
    Stage.finalizeFrom tx.keeper s = .sending (Stage.txArgs tx sigs) := by
  unfold finalizeFrom
  rw [(SafeTx.ofSnapshot_eq_ok_iff.1 htx).keeper, htx, hsigs]
  simp [reading]

namespace Application

/-- The votes that the current round holds when it has seen the submissions of a block. -/
def ballots (x : Application) (b : Block) : SortedMap PublicKey Payload :=
  (x.routeAll b.submissions).1.current.payloads

/-- The blocks `pre` and `b` have ended an instance in which signatures were collected, and the keeper
finds what came of it after the blocks `bs`. -/
structure Signed (a : Application) (bs pre : List Block) (b : Block) (tx : SafeTx)
    (sigs : SortedMap PublicKey Signature) : Prop where
  kind : (a.afterBlocks pre).current.kind = .collectSignature
  /-- The agreed data called for the transaction all through the instance. -/
  throughout : ∀ q, q <+: pre → (a.afterBlocks q).roundCount = (a.afterBlocks pre).roundCount →
    (a.afterBlocks q).current.kind = .collectSignature ∧
      SafeTx.ofSnapshot (a.afterBlocks q).data = .ok tx ∧ tx.MadeOf (a.afterBlocks q).data
  now : SafeTx.ofSnapshot (a.afterBlocks bs).data = .ok tx
  madeOf : tx.MadeOf (a.afterBlocks bs).data
  stored : (a.afterBlocks bs).data.signatures = .ok sigs
  collected : ∀ pk sig, sigs.get? pk = some sig ↔
    ∃ p, ((a.afterBlocks pre).ballots b).get? pk = some p ∧ p.vote = .signature sig
  counted : ∀ pk p, ((a.afterBlocks pre).ballots b).get? pk = some p →
    p.sender = pk ∧ p.roundCount = (a.afterBlocks pre).roundCount
  sends : Stage.finalizeFrom tx.keeper (a.afterBlocks bs).data = .sending (Stage.txArgs tx sigs)

/-- The blocks `pre` and `b` have ended a finalization, and the agreed data holds the transaction of
its keeper after the blocks `bs`. -/
structure Sent (a : Application) (bs pre : List Block) (b : Block) (keeper : PublicKey)
    (p : Payload) (tx : TxHash) : Prop where
  kind : (a.afterBlocks pre).current.kind = .finalization
  chosen : (a.afterBlocks pre).data.keeper = .ok keeper
  counted : ((a.afterBlocks pre).ballots b).get? keeper = some p
  sender : p.sender = keeper
  roundCount : p.roundCount = (a.afterBlocks pre).roundCount
  vote : p.vote = .finalization (some tx)
  stored : (a.afterBlocks bs).data.finalTx = .ok tx

variable {a x : Application} {bs pre : List Block} {b : Block} {t : Transition}

theorem Coherent.ballots_eq (h : x.Coherent) (b : Block) :
    x.ballots b = (x.current.collectAll b.submissions).payloads := by
  unfold ballots
  rw [routeAll_eq_countP h.apart]
  rfl

/-- Every vote that the current round holds is of its round count. -/
theorem Coherent.of_ballots (h : x.Coherent) {pk : PublicKey} {p : Payload}
    (hp : (x.ballots b).get? pk = some p) : p.sender = pk ∧ p.roundCount = x.roundCount := by
  have hw := h.wellFormed.collectAll h.collecting b.submissions
  rw [h.ballots_eq] at hp
  have hexpects := (hw.expects hp).2
  rw [Round.collectAll_anyRoundCount, Round.collectAll_roundCount, h.current_anyRoundCount,
    h.current_roundCount] at hexpects
  exact ⟨hw.sender hp, hexpects.resolve_left Bool.false_ne_true⟩

/-! ## The instance before -/

/-- Unless the service ends, the current round has ended, with a verdict of its votes. -/
theorem StartedBy.verdict (hs : StartedBy a bs pre b t) (h : a.Coherent)
    (ht : t.target ≠ .terminated) : t.source = (a.afterBlocks pre).current.kind ∧
      ∃ u, ((a.afterBlocks pre).current.collectAll b.submissions).Verdict (a.afterBlocks pre).data
          b.height (a.afterBlocks pre).params.roundTimeout u t.event ∧
        (a.afterBlocks pre).data.update? u = some (a.afterBlocks (pre ++ [b])).data := by
  have htrans := hs.transition
  rw [afterBlocks_concat]
  have hw := h.after pre
  generalize a.afterBlocks pre = w at *
  obtain ⟨y, o, hproc, hstep, -⟩ := hw.processBlock (height_of_transitionAt htrans)
  rw [transitionAt_of_ok hproc] at htrans
  rw [htrans] at hstep
  rw [hproc]
  cases hstep with
  | terminates hf hbg hsucc =>
    have hfollows := hsucc.follows
    rw [(hw.background_watches hbg).1.kind] at hfollows
    exact absurd (RoundKind.target_of_termination hw.table hfollows) ht
  | moves hf hbg hu hsucc => exact ⟨rfl, hsucc.verdict⟩

theorem StartedBy.kind (hs : StartedBy a bs pre b t) (h : a.Coherent) :
    (a.afterBlocks bs).current.kind = t.target :=
  hs.since.kind.trans (kind_of_instantiate (hs.moves h).starts)

/-- The instance before was that of an edge of the table. -/
theorem StartedBy.edge (hs : StartedBy a bs pre b t) (h : a.Coherent) :
    ⟨t.source, t.event, (a.afterBlocks bs).current.kind⟩ ∈
      Table.bundledBackground :: Table.bundledEdges := by
  rw [hs.kind h]
  exact RoundKind.edge_of_target (h.after pre).table (hs.moves h).follows

/-- A round that only one kind of round leads to, when it is done, was started by a verdict of that
kind. -/
theorem StartedBy.ended (hs : StartedBy a bs pre b t) (h : a.Coherent) {source target : RoundKind}
    (hk : (a.afterBlocks bs).current.kind = target) (ht : target ≠ .terminated)
    (hedges : ∀ edge ∈ Table.bundledBackground :: Table.bundledEdges,
      edge.target = target → edge.source = source ∧ edge.event = .done) :
    (a.afterBlocks pre).current.kind = source ∧
      ∃ u, ((a.afterBlocks pre).current.collectAll b.submissions).Verdict (a.afterBlocks pre).data
          b.height (a.afterBlocks pre).params.roundTimeout u .done ∧
        (a.afterBlocks pre).data.update? u = some (a.afterBlocks bs).data := by
  obtain ⟨hsource, hevent⟩ : t.source = source ∧ t.event = .done := hedges _ (hs.edge h) hk
  obtain ⟨hcurrent, hverdict⟩ := hs.verdict h (hs.kind h ▸ hk ▸ ht)
  rw [hevent, ← hs.since.data] at hverdict
  exact ⟨hcurrent.symm.trans hsource, hverdict⟩

/-- The data is the same all through an instance. -/
theorem Coherent.throughout (h : a.Coherent) {q : List Block} (hq : q <+: pre)
    (hcount : (a.afterBlocks q).roundCount = (a.afterBlocks pre).roundCount) :
    (a.afterBlocks q).current.kind = (a.afterBlocks pre).current.kind ∧
      (a.afterBlocks q).data = (a.afterBlocks pre).data := by
  have hsame := h.sameInstance hq hcount
  exact ⟨hsame.kind.symm, hsame.data.symm⟩

/-- **What the keeper finds.** The finalization comes right after an instance in which signatures
were collected. -/
theorem StartedBy.signed (hs : StartedBy a bs pre b t) (h : a.Coherent)
    (hk : (a.afterBlocks bs).current.kind = .finalization) : ∃ tx sigs, Signed a bs pre b tx sigs := by
  obtain ⟨hkind, u, hver, hu⟩ : (a.afterBlocks pre).current.kind = .collectSignature ∧ _ :=
    hs.ended h hk nofun (by decide)
  have hw := h.after pre
  obtain ⟨sigs, rfl, hget⟩ := hver.of_signed ((Round.collectAll_kind _ _).trans hkind)
  -- what the peers sign is there when the instance starts, and only signatures are written at its end
  have hneeds := hw.needs
  rw [hkind] at hneeds
  obtain ⟨tx, htx⟩ := hw.conforms.exists_safeTx (hneeds _ (by decide)) (hneeds _ (by decide))
  have hsets : Update.Sets [Update.set Key.signatures sigs] [Key.signatures] := by
    simp [Update.Sets, Update.set]
  have hnow := (SafeTx.ofSnapshot_of_revises (hsets.revises hu) (by decide)).trans htx
  have hstored : (a.afterBlocks bs).data.signatures = .ok sigs := by
    have hsize := (hw.wellFormed.collectAll hw.collecting b.submissions).size_signatures_le hget
    refine read_of_read? (read?_of_get? ?_ (decodeWhole_map hsize (by decide)))
    rw [get?_update? hu]
    exact congrArg (Option.getD · _) (Update.last?_singleton _ _)
  refine ⟨tx, sigs, hkind, fun q hq hcount => ?_, hnow, SafeTx.ofSnapshot_eq_ok_iff.1 hnow, hstored,
    fun pk sig => ?_, fun pk p hp => hw.of_ballots hp, Stage.finalizeFrom_eq hnow hstored⟩
  · obtain ⟨hqkind, hdata⟩ := h.throughout hq hcount
    rw [hdata]
    exact ⟨hqkind.trans hkind, htx, SafeTx.ofSnapshot_eq_ok_iff.1 htx⟩
  · rw [hget, hw.ballots_eq]

theorem Coherent.keeper_of_finalization (h : x.Coherent) (hk : x.current.kind = .finalization) :
    ∃ keeper, x.current.keeper = some keeper ∧ x.data.keeper = .ok keeper := by
  obtain ⟨keeper, hkeeper⟩ := h.wellFormed.keeper (by rw [hk]; rfl)
  have hread := h.current_keeper
  rw [hk, hkeeper] at hread
  change some <$> RoundKind.reading _ x.data.keeper = _ at hread
  refine ⟨keeper, hkeeper, ?_⟩
  cases hr : x.data.keeper with
  | error e =>
    rw [hr] at hread
    cases hread
  | ok pk =>
    rw [hr] at hread
    cases hread
    rfl

/-- **What the peers validate.** The validation comes right after a finalization. -/
theorem StartedBy.sent (hs : StartedBy a bs pre b t) (h : a.Coherent)
    (hk : (a.afterBlocks bs).current.kind = .validateTransaction) :
    ∃ keeper p tx, Sent a bs pre b keeper p tx := by
  obtain ⟨hkind, u, hver, hu⟩ : (a.afterBlocks pre).current.kind = .finalization ∧ _ :=
    hs.ended h hk nofun (by decide)
  have hw := h.after pre
  obtain ⟨pk, p, tx, hget, hvote, rfl⟩ :=
    hver.of_finalized ((Round.collectAll_kind _ _).trans hkind)
  -- the round hears its keeper only, which is the one of the agreed data
  obtain ⟨keeper, hkeeper, hdata⟩ := hw.keeper_of_finalization hkind
  obtain rfl := (hw.wellFormed.collectAll hw.collecting b.submissions).eq_keeper
    ((Round.collectAll_keeper _ _).trans hkeeper) hget
  have hcounted : ((a.afterBlocks pre).ballots b).get? pk = some p := by rw [hw.ballots_eq, hget]
  have hstored : (a.afterBlocks bs).data.finalTx = .ok tx := by
    refine read_of_read? (read?_of_get? ?_ (decodeWhole_lawful (by decide) tx))
    rw [get?_update? hu]
    exact congrArg (Option.getD · _) (Update.last?_singleton _ _)
  obtain ⟨hsender, hcount⟩ := hw.of_ballots hcounted
  exact ⟨pk, p, tx, hkind, hdata, hcounted, hsender, hcount, hvote, hstored⟩

/-- **The keeper sends what the peers signed.** In every run from the start, whenever the current
round is the finalization, it was started by the block that ended an instance in which signatures
were collected: all through that instance the agreed data called for the transaction that it calls
for now; the signatures that it holds are those counted in that instance, from votes of its round
count; and these are what the keeper sends. Whenever the current round is the validation, it was
started by the block that ended a finalization, and the agreed data holds the transaction that the
keeper voted for in that instance. -/
theorem keeper_sends_what_was_signed {params : AppParams} (hstart : start params = .ok a)
    (bs : List Block) :
    ((a.afterBlocks bs).current.kind = .finalization →
      ∃ pre b t tx sigs, StartedBy a bs pre b t ∧ Signed a bs pre b tx sigs) ∧
    ((a.afterBlocks bs).current.kind = .validateTransaction →
      ∃ pre b t keeper p tx, StartedBy a bs pre b t ∧ Sent a bs pre b keeper p tx) := by
  obtain ⟨⟨hne, hle⟩, rfl⟩ := start_eq_ok_iff.1 hstart
  have h := coherent_initial hne hle
  -- the first instance is the registration, so a block has started the one that runs
  have hstarted {k : RoundKind} (hk : ((initial params).afterBlocks bs).current.kind = k)
      (hne : k ≠ .registrationStartup) : ∃ pre b t, StartedBy (initial params) bs pre b t :=
    (h.startedBy bs).resolve_left fun hsame => hne (hk.symm.trans hsame.kind)
  constructor
  · intro hk
    obtain ⟨pre, b, t, hs⟩ := hstarted hk nofun
    obtain ⟨tx, sigs, hsigned⟩ := hs.signed h hk
    exact ⟨pre, b, t, tx, sigs, hs, hsigned⟩
  · intro hk
    obtain ⟨pre, b, t, hs⟩ := hstarted hk nofun
    obtain ⟨keeper, p, tx, hsent⟩ := hs.sent h hk
    exact ⟨pre, b, t, keeper, p, tx, hs, hsent⟩

/-! ## The first peer sends its transaction -/

/-- The first peer chooses itself as the keeper. -/
def keeperVote : Submission where
  payload := Wire.encode (⟨firstPeer, Counter.ofNat 2, .selectKeeper firstPeer⟩ : Payload)
  sig := ⟨Bytes.ofNatBE 64 0xb15f62210fae505119a0733c27076030cffcc91c6c834a3b94e84c908e24b708775824a00a21a4704e239baa1b4397242d09c77f1ebf3cf840ff2f6626705803,
    Bytes.length_ofNatBE 64 _⟩

/-- Its signature of the transaction that follows. -/
def firstSignature : Signature :=
  ⟨Bytes.ofNatBE 64 0xaab26a2c040c806630d1ec11b25524eba5142ff5915a4f2f111d1322bb8ba5c789a92ba9bbc4653878f31e6c52954580241b01433f92443ecfd48655ad94b905,
    Bytes.length_ofNatBE 64 _⟩

def signatureVote : Submission where
  payload := Wire.encode (⟨firstPeer, Counter.ofNat 3, .signature firstSignature⟩ : Payload)
  sig := ⟨Bytes.ofNatBE 64 0x8701c61eb13f917223a495155bb21ecaedaae5e30699cdd22ae575f66c4c05b541b3f6e683259172b35e9b370b15f4128c0e6cc2e69f2b761890b191aff9da09,
    Bytes.length_ofNatBE 64 _⟩

/-- It has sent the transaction. -/
def sentVote : Submission where
  payload := Wire.encode (⟨firstPeer, Counter.ofNat 4, .finalization (some (Octets.fill 1))⟩ : Payload)
  sig := ⟨Bytes.ofNatBE 64 0x4a3d0ed3077f4bfa51f8ce4ca777db689e064115ea274ff06ab7a4fd0565c9cd8ebe294ab66a581b03cb740d9fd3ab341c44e8b13849c6740143fef3b395c10b,
    Bytes.length_ofNatBE 64 _⟩

/-- What the signed submissions say. -/
theorem opened_solo :
    keeperVote.open = .ok ⟨firstPeer, Counter.ofNat 2, .selectKeeper firstPeer⟩ ∧
      signatureVote.open = .ok ⟨firstPeer, Counter.ofNat 3, .signature firstSignature⟩ ∧
      sentVote.open =
        .ok ⟨firstPeer, Counter.ofNat 4, .finalization (some (Octets.fill 1))⟩ := by
  decide +kernel

def keeperBlock : Block := ⟨Counter.ofNat 3, Octets.zero, [keeperVote]⟩

def signatureBlock : Block := ⟨Counter.ofNat 4, Octets.zero, [signatureVote]⟩

def sentBlock : Block := ⟨Counter.ofNat 5, Octets.zero, [sentVote]⟩

/-- The votes of the first peer, up to the one that starts the finalization. -/
def signingBlocks : List Block := [soloBlock, beaconBlock, keeperBlock, signatureBlock]

theorem alone_signingBlocks : ∃ data, (data.keeper = .ok firstPeer ∧ data.periodCount = .ok 0) ∧
    Alone firstPeer 4 .finalization data ((initial soloParams).afterBlocks signingBlocks) := by
  have h₀ : Alone firstPeer 0 .registrationStartup Snapshot.empty
      ((initial soloParams).afterBlocks []) := alone_initial rfl
  have h₁ := h₀.concat (e := .done) soloBlock rfl opened_pair.1 rfl rfl rfl rfl nofun rfl rfl
  have h₂ := h₁.concat (e := .done) beaconBlock rfl open_beaconVote rfl rfl rfl rfl nofun rfl rfl
  have h₃ := h₂.concat (e := .done) keeperBlock rfl opened_solo.1 rfl rfl rfl rfl nofun rfl rfl
  have h₄ := h₃.concat (e := .done) signatureBlock rfl opened_solo.2.1 rfl rfl rfl rfl nofun rfl rfl
  refine ⟨_, ?_, h₄⟩
  decide +kernel

theorem alone_sentBlock : ∃ data, data.periodCount = .ok 0 ∧
    Alone firstPeer 5 .validateTransaction data
      ((initial soloParams).afterBlocks (signingBlocks ++ [sentBlock])) := by
  obtain ⟨data, ⟨hkeeper, hperiods⟩, h⟩ := alone_signingBlocks
  have hread : RoundKind.finalization.keeper? data = .ok (some firstPeer) := by
    change some <$> RoundKind.reading _ data.keeper = _
    rw [hkeeper]
    rfl
  have hversion : data.version.toNat + 1 < UInt64.size := by
    have hle := h.coherent.version_le
    rw [h.data, h.height] at hle
    exact Nat.lt_of_le_of_lt (Nat.add_le_add_right hle 1) (by decide)
  obtain ⟨data', hdata'⟩ := Snapshot.exists_update? hversion
    [Update.set Snapshot.Key.finalTx (Octets.fill 1 : TxHash)]
  have hsets : Update.Sets [Update.set Key.finalTx (Octets.fill 1 : TxHash)] [Key.finalTx] := by
    simp [Update.Sets, Update.set]
  refine ⟨data', (periodCount_congr ((hsets.revises hdata').frame _ (by decide))).trans hperiods,
    h.concat (e := .done) sentBlock rfl opened_solo.2.2 rfl rfl rfl rfl ?_ ?_ rfl⟩
  · intro keeper hk
    cases hread.symm.trans hk
    rfl
  · exact (RoundKind.Settles.finalized _).concludeAgreed_eq hdata'

/-- The only peer finds its signature when it sends the transaction, and then validates what it has
sent. -/
theorem keeper_sends_what_was_signed_of_one :
    (∃ tx sigs, SafeTx.ofSnapshot ((initial soloParams).afterBlocks signingBlocks).data = .ok tx ∧
      ((initial soloParams).afterBlocks signingBlocks).data.signatures = .ok sigs ∧
      Stage.finalizeFrom tx.keeper ((initial soloParams).afterBlocks signingBlocks).data =
        .sending (Stage.txArgs tx sigs)) ∧
    ∃ tx, ((initial soloParams).afterBlocks (signingBlocks ++ [sentBlock])).data.finalTx =
      .ok tx := by
  obtain ⟨_, -, hfinal⟩ := alone_signingBlocks
  obtain ⟨_, -, hvalidate⟩ := alone_sentBlock
  obtain ⟨pre, b, t, tx, sigs, -, hsigned⟩ :=
    (keeper_sends_what_was_signed start_solo signingBlocks).1 hfinal.kind
  obtain ⟨pre', b', t', keeper, p, sent, -, hsent⟩ :=
    (keeper_sends_what_was_signed start_solo (signingBlocks ++ [sentBlock])).2 hvalidate.kind
  exact ⟨⟨tx, sigs, hsigned.now, hsigned.stored, hsigned.sends⟩, sent, hsent.stored⟩

end Application

end Quorum
