import RemoteNode.Proofs.Session.Dialogues
import RemoteNode.Proofs.Session.Isolation

/-! Searches in a window of time. Blocks are searched in two round trips and the transactions of the
pool in one; what both come to keeps the same laws. A window that ends before it begins is empty and
nobody is asked; otherwise the first of the items that the node has sent are delivered, as many as
the limit admits, with the number that it has reported, or the first failure.

Whether a window tells that the limit has cut it hangs on what the node has reported: the number is
made good by what is held, after the cut, and not by what was sent. -/

namespace RemoteNode

namespace TimeWindow
variable {α : Type} {w : TimeWindow α} {limit reported : Nat} {sent : List α}

/-- The window holds the first of the items that were sent, as many as the limit admits. It counts
as many as were reported, but no fewer than it holds. -/
structure Holds (w : TimeWindow α) (limit reported : Nat) (sent : List α) : Prop where
  items : w.items = sent.take limit
  count : w.count = max reported w.items.length

theorem holds_ofReport : (ofReport (sent.take limit) reported).Holds limit reported sent :=
  ⟨rfl, rfl⟩

theorem eq_of_items_count {v : TimeWindow α} (items : w.items = v.items)
    (count : w.count = v.count) : w = v := by
  cases w
  cases v
  cases items
  cases count
  rfl

theorem Holds.eq_ofReport (h : w.Holds limit reported sent) :
    w = ofReport (sent.take limit) reported :=
  eq_of_items_count h.items (h.items ▸ h.count)

theorem Holds.length (h : w.Holds limit reported sent) :
    w.items.length = min limit sent.length := by
  rw [h.items, List.length_take]

/-- It is truncated if more were reported than it holds. -/
theorem Holds.isTruncated_iff (h : w.Holds limit reported sent) :
    w.isTruncated = true ↔ min limit sent.length < reported := by
  rw [isTruncated, h.count, decide_eq_true_iff, h.length]
  omega

/-- Where all that there are were reported and as many were sent as the limit admits, all are held
if and only if the limit admits them. -/
theorem Holds.count_eq_length_iff (h : w.Holds limit reported sent)
    (full : sent.length = min limit reported) :
    w.count = w.items.length ↔ reported ≤ limit := by
  rw [h.count, h.length, full]
  omega

/-- If fewer items are held than were sent, it is truncated and counts as many as were sent. -/
def TellsCut (w : TimeWindow α) (sent : Nat) : Prop :=
  w.items.length < sent → w.isTruncated = true ∧ sent ≤ w.count

/-- What a window tells of whether the limit has cut it. -/
structure Telling (w : TimeWindow α) (limit reported sent : Nat) : Prop where
  /-- It tells of a cut unless the node has sent more than it has reported. -/
  tells : w.TellsCut sent ↔ (limit < sent → sent ≤ reported)
  /-- Once cut, it counts what was reported or, if that is less, what it holds. -/
  count : limit < sent → w.count = max reported limit
  /-- Once cut, it is truncated if more were reported than the limit admits. -/
  truncated : limit < sent → (w.isTruncated = true ↔ limit < reported)

theorem Holds.telling (h : w.Holds limit reported sent) :
    w.Telling limit reported sent.length := by
  have length := h.length
  have truncated := h.isTruncated_iff
  have count := h.count
  refine ⟨?_, fun cut => ?_, fun cut => ?_⟩
  · -- The limit has cut what was sent if and only if fewer are held.
    rw [TellsCut, length, truncated, count, length]
    omega
  · rw [count, length]
    omega
  · rw [truncated]
    omega

end TimeWindow

namespace Session

open Chain (BlockDetails TransactionDetails)

/-! ### What the node has sent -/

/-- What the node has sent to a search for blocks, and how many it has reported: the blocks with the
hashes that it has listed, or none if it has listed none. -/
inductive BlocksSent (t : Exchange.Timeout) (q : Command.Window UInt32) :
    List Message → List BlockDetails → Nat → Prop
  | unlisted (r : Reply) (found : Command.Excerpt UInt32 Hash)
    (lists : r.content t .blockHashesInWindow = .ok found) (none : found.items = []) :
    BlocksSent t q [.request .blockHashesInWindow q, .reply r] [] found.count.toNat
  | listed (r d : Reply) (found : Command.Excerpt UInt32 Hash) (sent : List BlockDetails)
    (lists : r.content t .blockHashesInWindow = .ok found) (some : found.items ≠ [])
    (sends : d.content t .blocksByHashes = .ok sent) :
    BlocksSent t q [.request .blockHashesInWindow q, .reply r,
      .request .blocksByHashes found.items, .reply d] sent found.count.toNat

/-- A round trip of a search for blocks has failed. -/
inductive BlocksFailed (t : Exchange.Timeout) (q : Command.Window UInt32) :
    List Message → Failure → Prop
  | unlisted (r : Reply) (e : Failure) (fails : r.content t .blockHashesInWindow = .error e) :
    BlocksFailed t q [.request .blockHashesInWindow q, .reply r] e
  | listed (r d : Reply) (found : Command.Excerpt UInt32 Hash) (e : Failure)
    (lists : r.content t .blockHashesInWindow = .ok found) (some : found.items ≠ [])
    (fails : d.content t .blocksByHashes = .error e) :
    BlocksFailed t q [.request .blockHashesInWindow q, .reply r,
      .request .blocksByHashes found.items, .reply d] e

/-- What the node has sent to a search in the pool, and how many it has reported. -/
inductive PoolSent (t : Exchange.Timeout) (q : Command.Window UInt64) :
    List Message → List TransactionDetails → Nat → Prop
  | sent (r : Reply) (found : Command.Excerpt UInt64 TransactionDetails)
    (sends : r.content t .poolTransactionsInWindow = .ok found) :
    PoolSent t q [.request .poolTransactionsInWindow q, .reply r] found.items found.count.toNat

/-- The round trip of a search in the pool has failed. -/
inductive PoolFailed (t : Exchange.Timeout) (q : Command.Window UInt64) :
    List Message → Failure → Prop
  | failed (r : Reply) (e : Failure) (fails : r.content t .poolTransactionsInWindow = .error e) :
    PoolFailed t q [.request .poolTransactionsInWindow q, .reply r] e

/-! ### How a search goes -/

/-- How a search in a window goes, by what the messages exchanged mean: what it and the node say to
each other, and what it comes to. -/
inductive Search {α : Type} (first last : UInt64) (limit : Nat)
    (Sent : List Message → List α → Nat → Prop) (Failed : List Message → Failure → Prop) :
    List Message → Except Failure (TimeWindow α) → Prop
  | inverted (w : TimeWindow α) (inverted : last < first) (items : w.items = [])
    (count : w.count = 0) : Search first last limit Sent Failed [] (.ok w)
  | failed (es : List Message) (e : Failure) (ordered : first ≤ last) (fails : Failed es e) :
    Search first last limit Sent Failed es (.error e)
  | found (es : List Message) (sent : List α) (reported : Nat) (w : TimeWindow α)
    (ordered : first ≤ last) (sends : Sent es sent reported)
    (holds : w.Holds limit reported sent) : Search first last limit Sent Failed es (.ok w)

/-- How a search for blocks goes. -/
abbrev BlockSearch (t : Exchange.Timeout) (first last : UInt64) (limit : UInt32) :
    List Message → Except Failure (TimeWindow BlockDetails) → Prop :=
  Search first last limit.toNat (BlocksSent t ⟨first, last, limit⟩)
    (BlocksFailed t ⟨first, last, limit⟩)

/-- How a search in the pool goes. -/
abbrev PoolSearch (t : Exchange.Timeout) (first last : UInt64) (limit : UInt32) :
    List Message → Except Failure (TimeWindow TransactionDetails) → Prop :=
  Search first last limit.toNat (PoolSent t ⟨first, last, limit.toUInt64⟩)
    (PoolFailed t ⟨first, last, limit.toUInt64⟩)

section Searches
variable {α : Type} {t : Exchange.Timeout} {first last : UInt64} {limit : UInt32} {n : Nat}
  {es : List Message} {Sent : List Message → List α → Nat → Prop}
  {Failed : List Message → Failure → Prop} {w : TimeWindow α}

/-- Nobody is asked for a window that ends before it begins, and it is empty. -/
theorem Search.inverted_iff {result : Except Failure (TimeWindow α)} (inverted : last < first) :
    Search first last n Sent Failed es result ↔ es = [] ∧ result = .ok .empty := by
  constructor
  · intro search
    cases search with
    | inverted w _ items count =>
      exact ⟨rfl, congrArg _ (TimeWindow.eq_of_items_count items count)⟩
    | failed es e ordered | found es sent reported w ordered =>
      exact absurd inverted (UInt64.not_lt.mpr ordered)
  · rintro ⟨rfl, rfl⟩
    exact .inverted _ inverted rfl rfl

/-- A window in order is delivered with the first items that the node has sent. -/
theorem Search.sends (search : Search first last n Sent Failed es (.ok w))
    (ordered : first ≤ last) :
    ∃ sent reported, Sent es sent reported ∧ w.Holds n reported sent := by
  cases search with
  | inverted w inverted => exact absurd inverted (UInt64.not_lt.mpr ordered)
  | found es sent reported w _ sends holds => exact ⟨sent, reported, sends, holds⟩

/-- A search for blocks goes like this, and whatever goes like this may be one. -/
theorem leadsTo_windowOfBlocks_iff {result : Except Failure (TimeWindow BlockDetails)} :
    (Operation.windowOfBlocks first last limit).LeadsTo t es (.done result) ↔
      BlockSearch t first last limit es result := by
  rw [Operation.windowOfBlocks]
  split
  · rename_i inverted
    rw [Procedure.leadsTo_done_iff]
    exact (Search.inverted_iff inverted).symm
  · rename_i ordered
    have ordered : first ≤ last := UInt64.not_lt.mp ordered
    rw [Procedure.leadsTo_ask_iff]
    constructor
    · rintro (⟨r, e, fails, rfl, rfl⟩ | ⟨r, found, es, lists, rfl, said⟩)
      · exact .failed _ _ ordered (.unlisted r e fails)
      · split at said
        · rename_i none
          obtain ⟨rfl, rfl⟩ := Procedure.leadsTo_done_iff.mp said
          exact .found _ _ _ _ ordered (.unlisted r found lists (List.isEmpty_iff.mp none))
            ⟨List.take_nil.symm, rfl⟩
        · rename_i some
          rw [List.isEmpty_iff] at some
          obtain ⟨d, e, fails, rfl, rfl⟩ | ⟨d, sent, es, sends, rfl, ends⟩ :=
            Procedure.leadsTo_ask_iff.mp said
          · exact .failed _ _ ordered (.listed r d found e lists some fails)
          · obtain ⟨rfl, rfl⟩ := Procedure.leadsTo_done_iff.mp ends
            exact .found _ _ _ _ ordered (.listed r d found sent lists some sends)
              TimeWindow.holds_ofReport
    · intro search
      cases search with
      | inverted w inverted => exact absurd inverted (UInt64.not_lt.mpr ordered)
      | failed es e _ fails =>
        cases fails with
        | unlisted r e fails => exact .inl ⟨r, e, fails, rfl, rfl⟩
        | listed r d found e lists some fails =>
          refine .inr ⟨r, found, _, lists, rfl, ?_⟩
          rw [if_neg (by simpa using some)]
          exact Procedure.leadsTo_ask_iff.mpr (.inl ⟨d, e, fails, rfl, rfl⟩)
      | found es sent reported w _ sends holds =>
        obtain rfl := holds.eq_ofReport
        cases sends with
        | unlisted r found lists none =>
          refine .inr ⟨r, found, _, lists, rfl, ?_⟩
          rw [if_pos (by simpa using none), List.take_nil]
          exact .start
        | listed r d found sent lists some sends =>
          refine .inr ⟨r, found, _, lists, rfl, ?_⟩
          rw [if_neg (by simpa using some)]
          exact Procedure.leadsTo_ask_iff.mpr (.inr ⟨d, sent, _, sends, rfl, .start⟩)

/-- A search in the pool goes like this, and whatever goes like this may be one. -/
theorem leadsTo_windowOfPool_iff {result : Except Failure (TimeWindow TransactionDetails)} :
    (Operation.windowOfPool first last limit).LeadsTo t es (.done result) ↔
      PoolSearch t first last limit es result := by
  rw [Operation.windowOfPool]
  split
  · rename_i inverted
    rw [Procedure.leadsTo_done_iff]
    exact (Search.inverted_iff inverted).symm
  · rename_i ordered
    have ordered : first ≤ last := UInt64.not_lt.mp ordered
    rw [Procedure.once, Procedure.leadsTo_ask_iff]
    constructor
    · rintro (⟨r, e, fails, rfl, rfl⟩ | ⟨r, found, es, sends, rfl, said⟩)
      · exact .failed _ _ ordered (.failed r e fails)
      · obtain ⟨rfl, rfl⟩ := Procedure.leadsTo_done_iff.mp said
        exact .found _ _ _ _ ordered (.sent r found sends) TimeWindow.holds_ofReport
    · intro search
      cases search with
      | inverted w inverted => exact absurd inverted (UInt64.not_lt.mpr ordered)
      | failed es e _ fails =>
        cases fails with
        | failed r e fails => exact .inl ⟨r, e, fails, rfl, rfl⟩
      | found es sent reported w _ sends holds =>
        obtain rfl := holds.eq_ofReport
        cases sends with
        | sent r found sends => exact .inr ⟨r, found, _, sends, rfl, .start⟩

/-- Whatever the node replies, a search for blocks ends by the second reply. -/
theorem exists_blockSearch (t : Exchange.Timeout) (first last : UInt64) (limit : UInt32)
    (r d : Reply) :
    ∃ es result, BlockSearch t first last limit es result ∧ repliesOf es <+: [r, d] := by
  by_cases inverted : last < first
  · exact ⟨_, _, .inverted .empty inverted rfl rfl, List.nil_prefix⟩
  have ordered : first ≤ last := UInt64.not_lt.mp inverted
  cases lists : r.content t .blockHashesInWindow with
  | error e => exact ⟨_, _, .failed _ _ ordered (.unlisted r e lists), List.prefix_append [r] [d]⟩
  | ok found =>
    by_cases none : found.items = []
    · exact ⟨_, _, .found _ _ _ _ ordered (.unlisted r found lists none)
        TimeWindow.holds_ofReport, List.prefix_append [r] [d]⟩
    · cases sends : d.content t .blocksByHashes with
      | error e =>
        exact ⟨_, _, .failed _ _ ordered (.listed r d found e lists none sends), List.prefix_rfl⟩
      | ok sent =>
        exact ⟨_, _, .found _ _ _ _ ordered (.listed r d found sent lists none sends)
          TimeWindow.holds_ofReport, List.prefix_rfl⟩

/-- A search in the pool ends by the first. -/
theorem exists_poolSearch (t : Exchange.Timeout) (first last : UInt64) (limit : UInt32)
    (r : Reply) :
    ∃ es result, PoolSearch t first last limit es result ∧ repliesOf es <+: [r] := by
  by_cases inverted : last < first
  · exact ⟨_, _, .inverted .empty inverted rfl rfl, List.nil_prefix⟩
  have ordered : first ≤ last := UInt64.not_lt.mp inverted
  cases sends : r.content t .poolTransactionsInWindow with
  | error e => exact ⟨_, _, .failed _ _ ordered (.failed r e sends), List.prefix_rfl⟩
  | ok found =>
    exact ⟨_, _, .found _ _ _ _ ordered (.sent r found sends) TimeWindow.holds_ofReport,
      List.prefix_rfl⟩

end Searches

namespace World

/-- Some messages are how a search begins. -/
def Begins {α : Type} (search : List Message → Except Failure (TimeWindow α) → Prop)
    (es : List Message) : Prop :=
  ∃ more result, search (es ++ more) result

section Runs
variable {w₀ w : World} {h : List (World × Move)} {allowed : World → Move → Prop} {cb : Callback}
  {first last : UInt64} {limit : UInt32} {es : List Message} {t : Exchange.Timeout}

theorem begins_blockSearch
    (said : (Operation.windowOfBlocks first last limit).Speaks t es) :
    Begins (BlockSearch t first last limit) es := by
  obtain ⟨more, result, leads⟩ := said.completes
  exact ⟨more, result, leadsTo_windowOfBlocks_iff.mp leads⟩

theorem begins_poolSearch (said : (Operation.windowOfPool first last limit).Speaks t es) :
    Begins (PoolSearch t first last limit) es := by
  obtain ⟨more, result, leads⟩ := said.completes
  exact ⟨more, result, leadsTo_windowOfPool_iff.mp leads⟩

/-- A search for blocks has gone like one, or it was withheld. -/
theorem search_of_blocks {result : Except Failure (TimeWindow BlockDetails)}
    (given : Given t h w.log cb (.blocksInWindow first last limit) result) :
    BlockSearch t first last limit (dialogue cb.ticket w.log) result ∨
      Begins (BlockSearch t first last limit) (dialogue cb.ticket w.log) ∧
        ∃ e, result = .error e ∧ Withheld h ⟨.blocksInWindow first last limit, cb⟩ e := by
  obtain leads | ⟨said, withheld⟩ := given
  · exact .inl (leadsTo_windowOfBlocks_iff.mp leads)
  · exact .inr ⟨begins_blockSearch said, withheld⟩

/-- So has a search in the pool. -/
theorem search_of_pool {result : Except Failure (TimeWindow TransactionDetails)}
    (given : Given t h w.log cb (.poolTransactionsInWindow first last limit) result) :
    PoolSearch t first last limit (dialogue cb.ticket w.log) result ∨
      Begins (PoolSearch t first last limit) (dialogue cb.ticket w.log) ∧
        ∃ e, result = .error e ∧
          Withheld h ⟨.poolTransactionsInWindow first last limit, cb⟩ e := by
  obtain leads | ⟨said, withheld⟩ := given
  · exact .inl (leadsTo_windowOfPool_iff.mp leads)
  · exact .inr ⟨begins_poolSearch said, withheld⟩

theorem given_blocks {window : TimeWindow BlockDetails}
    (given : Given t h w.log cb (.blocksInWindow first last limit) (.ok window)) :
    BlockSearch t first last limit (dialogue cb.ticket w.log) (.ok window) := by
  obtain search | ⟨-, e, failed, -⟩ := search_of_blocks given
  · exact search
  · cases failed

theorem given_pool {window : TimeWindow TransactionDetails}
    (given : Given t h w.log cb (.poolTransactionsInWindow first last limit) (.ok window)) :
    PoolSearch t first last limit (dialogue cb.ticket w.log) (.ok window) := by
  obtain search | ⟨-, e, failed, -⟩ := search_of_pool given
  · exact search
  · cases failed

end Runs

/-! ### A search in a run -/

/-- A search was told of a window with so many items, out of so many. -/
def tellsWindow (items count : Nat) : Entry → Bool
  | .completed _ (.operation (.blocksInWindow _ _ _) (.ok w)) _ =>
    w.items.length = items && w.count = count
  | .completed _ (.operation (.poolTransactionsInWindow _ _ _) (.ok w)) _ =>
    w.items.length = items && w.count = count
  | _ => false

/-- The text of a hash, of whose digits a quarter is given. -/
def hashText (quarter : String) : List String :=
  ["\"", quarter, quarter, quarter, quarter, "\""]

def blockText (height quarter : String) : List String :=
  ["\x7b\"major_version\":1,\"minor_version\":0,", "\"timestamp\":3,\"nonce\":7,\"height\":",
    height, ",\"prev_block_hash\":"] ++ hashText "0000000000000000" ++ [",\"hash\":"] ++
      hashText quarter ++ ["\x7d"]

/-- The node has three blocks in the window and lists two of them. -/
def listedBody : List UInt8 := bytesOf <|
  ["\x7b\"status\":\"OK\",\"block_hashes\":["] ++ hashText "0101010101010101" ++ [","] ++
    hashText "0202020202020202" ++ ["],\"count\":3\x7d"]

/-- The blocks that it has listed. -/
def blocksBody : List UInt8 := bytesOf <|
  ["\x7b\"status\":\"OK\",\"blocks\":["] ++ blockText "1" "0101010101010101" ++ [","] ++
    blockText "2" "0202020202020202" ++ ["]\x7d"]

set_option maxRecDepth 20000 in
/-- A search for one block comes to one of three, after two round trips. -/
theorem asked_blocks : ∃ h w, Trace (fun _ _ => True) (initial 1 .standard) h w ∧
    asked (.blocksInWindow 0 9 1) [listedBody, blocksBody] = some w ∧
    w.log.any (tellsWindow 1 3) = true := by
  have found : (asked (.blocksInWindow 0 9 1) [listedBody, blocksBody]).any (fun w =>
      w.log.any (tellsWindow 1 3)) = true := by decide +kernel
  obtain ⟨w, hw, told⟩ := (Option.any_eq_true ..).mp found
  obtain ⟨h, run⟩ := Trace.of_reachesBy (.of_reaches (reaches_asked hw))
  exact ⟨h, w, run, hw, told⟩

/-! ### The laws of the searches -/

/-- The laws of the searches in a window of time. -/
structure Searching (h : List (World × Move)) (w : World) : Prop where
  /-- A search for blocks has gone like one, or it has begun like one and its result is withheld:
  its worker was told to stop, or nobody served it. -/
  blocks : ∀ cb first last limit result b,
    .completed cb (.operation (.blocksInWindow first last limit) result) b ∈ w.log →
    BlockSearch w.timeout first last limit (dialogue cb.ticket w.log) result ∨
      Begins (BlockSearch w.timeout first last limit) (dialogue cb.ticket w.log) ∧
        ∃ e, result = .error e ∧ Withheld h ⟨.blocksInWindow first last limit, cb⟩ e
  /-- So has a search in the pool. -/
  pool : ∀ cb first last limit result b,
    .completed cb (.operation (.poolTransactionsInWindow first last limit) result) b ∈ w.log →
    PoolSearch w.timeout first last limit (dialogue cb.ticket w.log) result ∨
      Begins (PoolSearch w.timeout first last limit) (dialogue cb.ticket w.log) ∧
        ∃ e, result = .error e ∧ Withheld h ⟨.poolTransactionsInWindow first last limit, cb⟩ e
  /-- What was said for a search that a worker has is how one begins. -/
  blocksUnderway : ∀ (s : Nat) x cb first last limit p, w.workers[s]? = some x →
    .job ⟨.blocksInWindow first last limit, cb⟩ p ∈ x.tasks →
    Begins (BlockSearch w.timeout first last limit) (dialogue cb.ticket w.log)
  poolUnderway : ∀ (s : Nat) x cb first last limit p, w.workers[s]? = some x →
    .job ⟨.poolTransactionsInWindow first last limit, cb⟩ p ∈ x.tasks →
    Begins (PoolSearch w.timeout first last limit) (dialogue cb.ticket w.log)
  /-- Whatever the node replies, a search comes to a result by its second reply, and one in the pool
  by its first. -/
  blocksEnd : ∀ first last limit r d, ∃ es result,
    BlockSearch w.timeout first last limit es result ∧ repliesOf es <+: [r, d]
  poolEnd : ∀ first last limit r, ∃ es result,
    PoolSearch w.timeout first last limit es result ∧ repliesOf es <+: [r]
  /-- What is delivered never exceeds the limit. Where the node has reported all that there are and
  has sent as many as the limit admits, what is counted is what is held if and only if the limit
  admits them all. -/
  faithful : ∀ {α : Type} first last limit Sent Failed es (window : TimeWindow α),
    Search first last limit Sent Failed es (.ok window) → first ≤ last →
    ∃ sent reported, Sent es sent reported ∧ window.items.length ≤ limit ∧
      (sent.length = min limit reported →
        (window.count = window.items.length ↔ reported ≤ limit))

/-- Wherever a run leads, searches in a window of time keep their laws. -/
theorem searching_of_trace {allowed : World → Move → Prop} {w₀ w : World}
    {h : List (World × Move)} (first : w₀.Untouched) (run : Trace allowed w₀ h w) :
    w.Searching h := by
  have conversing := Conversing.of_trace first run
  refine ⟨fun cb first last limit result b told => search_of_blocks (conversing.given _ _ _ b told),
    fun cb first last limit result b told => search_of_pool (conversing.given _ _ _ b told), ?_, ?_,
    exists_blockSearch w.timeout, exists_poolSearch w.timeout, ?_⟩
  · intro s x cb first last limit p hx there
    exact begins_blockSearch ((conversing.workers s x hx).speaks there)
  · intro s x cb first last limit p hx there
    exact begins_poolSearch ((conversing.workers s x hx).speaks there)
  · intro α first last limit Sent Failed es window search ordered
    obtain ⟨sent, reported, sends, holds⟩ := search.sends ordered
    refine ⟨sent, reported, sends, ?_, holds.count_eq_length_iff⟩
    rw [holds.length]
    exact Nat.min_le_left ..

/-- One of three blocks is delivered, after two round trips. -/
theorem searching_asked : ∃ h w, Trace (fun _ _ => True) (initial 1 .standard) h w ∧
    asked (.blocksInWindow 0 9 1) [listedBody, blocksBody] = some w ∧
    w.log.any (tellsWindow 1 3) = true ∧ w.Searching h := by
  obtain ⟨h, w, run, hw, told⟩ := asked_blocks
  exact ⟨h, w, run, hw, told, searching_of_trace ⟨1, .standard, true, _, [], rfl⟩ run⟩

/-! ### Whether a window tells that it was cut -/

/-- What the windows that were delivered tell of whether the limit has cut them. -/
structure TellingCuts (w : World) : Prop where
  blocks : ∀ cb first last limit window b,
    .completed cb (.operation (.blocksInWindow first last limit) (.ok window)) b ∈ w.log →
    first ≤ last → ∃ sent reported,
      BlocksSent w.timeout ⟨first, last, limit⟩ (dialogue cb.ticket w.log) sent reported ∧
        window.Telling limit.toNat reported sent.length
  pool : ∀ cb first last limit window b,
    .completed cb (.operation (.poolTransactionsInWindow first last limit) (.ok window)) b ∈ w.log →
    first ≤ last → ∃ sent reported,
      PoolSent w.timeout ⟨first, last, limit.toUInt64⟩ (dialogue cb.ticket w.log) sent reported ∧
        window.Telling limit.toNat reported sent.length

/-- Wherever a run leads, what is delivered tells of a cut by what was reported. -/
theorem tellingCuts_of_trace {allowed : World → Move → Prop} {w₀ w : World}
    {h : List (World × Move)} (first : w₀.Untouched) (run : Trace allowed w₀ h w) :
    w.TellingCuts := by
  have conversing := Conversing.of_trace first run
  constructor
  · intro cb first last limit window b told ordered
    have given := conversing.given _ _ _ b told
    obtain ⟨sent, reported, sends, holds⟩ := (given_blocks given).sends ordered
    exact ⟨sent, reported, sends, holds.telling⟩
  · intro cb first last limit window b told ordered
    have given := conversing.given _ _ _ b told
    obtain ⟨sent, reported, sends, holds⟩ := (given_pool given).sends ordered
    exact ⟨sent, reported, sends, holds.telling⟩

/-- The node has sent two blocks and reported three; the one that is delivered tells of them. -/
theorem tellingCuts_asked : ∃ h w, Trace (fun _ _ => True) (initial 1 .standard) h w ∧
    asked (.blocksInWindow 0 9 1) [listedBody, blocksBody] = some w ∧
    w.log.any (tellsWindow 1 3) = true ∧ w.TellingCuts := by
  obtain ⟨h, w, run, hw, told⟩ := asked_blocks
  exact ⟨h, w, run, hw, told, tellingCuts_of_trace ⟨1, .standard, true, _, [], rfl⟩ run⟩

/-- The node sends two transactions of the pool and does not report how many there are. -/
def transactionsBody : List UInt8 := bytesOf <|
  ["\x7b\"status\":\"OK\",\"transactions\":[\x7b\"hash\":"] ++ hashText "0303030303030303" ++
    ["\x7d,\x7b\"hash\":"] ++ hashText "0404040404040404" ++ ["\x7d]\x7d"]

/-- How many transactions a reply to a search in the pool carries. -/
def carried (t : Exchange.Timeout) (r : Reply) : Option Nat :=
  (r.content t .poolTransactionsInWindow).toOption.map (·.items.length)

theorem map_carried {t : Exchange.Timeout} {q : Command.Window UInt64} {es : List Message}
    {sent : List TransactionDetails} {n : Nat} (sends : PoolSent t q es sent n) :
    (repliesOf es).map (carried t) = [some sent.length] := by
  cases sends with
  | sent r found sends =>
    have replies : repliesOf [.request .poolTransactionsInWindow q, .reply r] = [r] := rfl
    rw [replies, List.map_singleton, carried, sends]
    rfl

/-- A search for one transaction was told of a window that is not truncated, though the node has
sent two. -/
def misses (w : World) : Entry → Bool
  | .completed cb (.operation (.poolTransactionsInWindow first last limit) (.ok window)) _ =>
    (first = 0 && last = 9 && limit = 1) && !window.isTruncated && window.items.length = 1 &&
      (repliesOf (dialogue cb.ticket w.log)).map (carried w.timeout) = [some 2]
  | _ => false

set_option maxRecDepth 20000 in
/-- If the node sends two transactions where one was asked for and reports no number, the one that
is delivered passes for all there are. -/
theorem exists_not_tellsCut : ∃ w cb window b sent reported, (initial 1 .standard).Reaches w ∧
    .completed cb (.operation (.poolTransactionsInWindow 0 9 1) (.ok window)) b ∈ w.log ∧
    PoolSent w.timeout ⟨0, 9, 1⟩ (dialogue cb.ticket w.log) sent reported ∧
    window.items.length < sent.length ∧ ¬ window.TellsCut sent.length := by
  have found : (asked (.poolTransactionsInWindow 0 9 1) [transactionsBody]).any (fun w =>
      w.log.any w.misses) = true := by decide +kernel
  obtain ⟨w, hw, missed⟩ := (Option.any_eq_true ..).mp found
  obtain ⟨e, told, missed⟩ := List.any_eq_true.mp missed
  unfold misses at missed
  split at missed
  · rename_i cb first last limit window b
    simp only [Bool.and_eq_true, Bool.not_eq_true', decide_eq_true_eq] at missed
    obtain ⟨⟨⟨⟨⟨rfl, rfl⟩, rfl⟩, whole⟩, one⟩, replies⟩ := missed
    have run := reaches_asked hw
    obtain ⟨h, past⟩ := Trace.of_reachesBy (.of_reaches run)
    have given := (Conversing.of_trace ⟨1, .standard, true, _, [], rfl⟩ past).given _ _ _ b told
    obtain ⟨sent, reported, sends, holds⟩ := (given_pool given).sends (by decide)
    rw [map_carried sends] at replies
    have two : sent.length = 2 := by simpa using replies
    have fewer : window.items.length < sent.length := by omega
    refine ⟨w, cb, window, b, sent, reported, run, told, sends, fewer, fun tells => ?_⟩
    rw [(tells fewer).1] at whole
    cases whole
  · cases missed

end World

end Session

end RemoteNode
