import RemoteNode.Proofs.Session.Windows
import Mathlib.Data.List.Forall2

/-! Blocks by their heights. All heights are asked for in one request. The blocks of the reply are
delivered one to a list, in the order in which they were sent, and are not compared with what was
asked for: the lists belong to the heights if and only if the node has sent one block for each
height, in the order of the heights. -/

namespace RemoteNode.Session

open Chain (BlockDetails)

/-- There is one list for each height, in order, and every block of a list has its height. -/
def Grouped (heights : List UInt32) (lists : List (List BlockDetails)) : Prop :=
  List.Forall₂ (fun h blocks => ∀ b ∈ blocks, b.height = h) heights lists

/-- What the node has sent to whoever has asked for blocks by their heights. -/
inductive HeightsSent (t : Exchange.Timeout) (heights : List UInt32) :
    List Message → List BlockDetails → Prop
  | sent (r : Reply) (blocks : List BlockDetails)
    (sends : r.content t .blocksByHeights = .ok blocks) :
    HeightsSent t heights [.request .blocksByHeights heights, .reply r] blocks

/-- The round trip for blocks by their heights has failed. -/
inductive HeightsFailed (t : Exchange.Timeout) (heights : List UInt32) :
    List Message → Failure → Prop
  | failed (r : Reply) (e : Failure) (fails : r.content t .blocksByHeights = .error e) :
    HeightsFailed t heights [.request .blocksByHeights heights, .reply r] e

section Lists
variable {t : Exchange.Timeout} {heights : List UInt32} {lists : List (List BlockDetails)}
  {blocks : List BlockDetails} {es : List Message}

/-- Lists of one block each belong to the heights of these blocks and to no others. -/
theorem grouped_singletons_iff :
    Grouped heights (blocks.map ([·])) ↔ blocks.map (·.height) = heights := by
  rw [Grouped, List.forall₂_map_right_iff]
  induction blocks generalizing heights with
  | nil =>
    rw [List.forall₂_nil_right_iff]
    exact eq_comm
  | cons b blocks ih =>
    constructor
    · intro grouped
      cases grouped with
      | cons here others =>
        rw [List.map_cons, ih.mp others, here b (List.mem_singleton_self b)]
    · rintro rfl
      refine .cons (fun c there => ?_) (ih.mpr rfl)
      rw [List.mem_singleton.mp there]

/-- Whoever asks for blocks by their heights is delivered those that were sent, each in a list of
its own, or the failure of the round trip. -/
theorem leadsTo_blocksByHeights_iff {result : Except Failure (List (List BlockDetails))} :
    (Operation.blocksByHeights heights).procedure.LeadsTo t es (.done result) ↔
      (∃ e, HeightsFailed t heights es e ∧ result = .error e) ∨
        ∃ blocks, HeightsSent t heights es blocks ∧ result = .ok (blocks.map ([·])) := by
  rw [Operation.procedure, Procedure.once, Procedure.leadsTo_ask_iff]
  constructor
  · rintro (⟨r, e, fails, rfl, rfl⟩ | ⟨r, blocks, es, sends, rfl, ends⟩)
    · exact .inl ⟨e, .failed r e fails, rfl⟩
    · obtain ⟨rfl, rfl⟩ := Procedure.leadsTo_done_iff.mp ends
      exact .inr ⟨blocks, .sent r blocks sends, rfl⟩
  · rintro (⟨e, ⟨r, _, fails⟩, rfl⟩ | ⟨blocks, ⟨r, _, sends⟩, rfl⟩)
    · exact .inl ⟨r, e, fails, rfl, rfl⟩
    · exact .inr ⟨r, blocks, [], sends, rfl, .start⟩

end Lists

namespace World

/-- What is delivered of the blocks that were asked for by their heights. -/
structure Grouping (h : List (World × Move)) (w : World) : Prop where
  /-- Each block that the node has sent is delivered in a list of its own, and these lists belong to
  the heights if and only if the blocks have the heights that were asked for, one by one. -/
  delivered : ∀ cb heights lists b,
    .completed cb (.operation (.blocksByHeights heights) (.ok lists)) b ∈ w.log →
    ∃ blocks, HeightsSent w.timeout heights (dialogue cb.ticket w.log) blocks ∧
      lists = blocks.map ([·]) ∧ (Grouped heights lists ↔ blocks.map (·.height) = heights)
  /-- Otherwise the round trip has failed or the result was withheld. -/
  failed : ∀ cb heights e b,
    .completed cb (.operation (.blocksByHeights heights) (.error e)) b ∈ w.log →
    HeightsFailed w.timeout heights (dialogue cb.ticket w.log) e ∨
      Withheld h ⟨.blocksByHeights heights, cb⟩ e

/-- Wherever a run leads, each block that was sent for some heights is delivered in a list of its
own. -/
theorem grouping_of_trace {allowed : World → Move → Prop} {w₀ w : World}
    {h : List (World × Move)} (first : w₀.Untouched) (run : Trace allowed w₀ h w) :
    w.Grouping h := by
  have conversing := Conversing.of_trace first run
  constructor
  · intro cb heights lists b told
    obtain leads | ⟨-, e, failed, -⟩ := conversing.given _ _ _ b told
    · obtain ⟨e, -, failed⟩ | ⟨blocks, sent, same⟩ := leadsTo_blocksByHeights_iff.mp leads
      · cases failed
      · cases same
        exact ⟨blocks, sent, rfl, grouped_singletons_iff⟩
    · cases failed
  · intro cb heights e b told
    obtain leads | ⟨-, e', failed, withheld⟩ := conversing.given _ _ _ b told
    · obtain ⟨e', fails, failed⟩ | ⟨blocks, -, ok⟩ := leadsTo_blocksByHeights_iff.mp leads
      · cases failed
        exact .inl fails
      · cases ok
    · cases failed
      exact .inr withheld

/-- Lists with blocks of these heights were delivered for some heights. -/
def tellsBlocks (heights : List UInt32) (delivered : List (List UInt32)) : Entry → Bool
  | .completed _ (.operation (.blocksByHeights asked) (.ok lists)) _ =>
    asked = heights && lists.map (·.map (·.height)) = delivered
  | _ => false

set_option maxRecDepth 20000 in
/-- Two blocks were asked for in order and are delivered in two lists. -/
theorem grouping_asked : ∃ h w, Trace (fun _ _ => True) (initial 1 .standard) h w ∧
    asked (.blocksByHeights [1, 2]) [blocksBody] = some w ∧
    w.log.any (tellsBlocks [1, 2] [[1], [2]]) = true ∧ w.Grouping h := by
  have found : (asked (.blocksByHeights [1, 2]) [blocksBody]).any (fun w =>
      w.log.any (tellsBlocks [1, 2] [[1], [2]])) = true := by decide +kernel
  obtain ⟨w, hw, told⟩ := (Option.any_eq_true ..).mp found
  obtain ⟨h, run⟩ := Trace.of_reachesBy (.of_reaches (reaches_asked hw))
  exact ⟨h, w, run, hw, told, grouping_of_trace ⟨1, .standard, true, _, [], rfl⟩ run⟩

set_option maxRecDepth 20000 in
/-- Three heights are asked for, of which the node does not know the first: two lists are delivered,
and neither is in the place of its height. -/
theorem exists_not_grouped : ∃ w cb lists b, (initial 1 .standard).Reaches w ∧
    .completed cb (.operation (.blocksByHeights [7, 1, 2]) (.ok lists)) b ∈ w.log ∧
    ¬ Grouped [7, 1, 2] lists := by
  have found : (asked (.blocksByHeights [7, 1, 2]) [blocksBody]).any (fun w =>
      w.log.any (tellsBlocks [7, 1, 2] [[1], [2]])) = true := by decide +kernel
  obtain ⟨w, hw, told⟩ := (Option.any_eq_true ..).mp found
  obtain ⟨e, there, told⟩ := List.any_eq_true.mp told
  unfold tellsBlocks at told
  split at told
  · rename_i cb asked lists b
    simp only [Bool.and_eq_true, decide_eq_true_eq] at told
    obtain ⟨rfl, delivered⟩ := told
    refine ⟨w, cb, lists, b, reaches_asked hw, there, fun grouped => ?_⟩
    have three : 3 = lists.length := List.Forall₂.length_eq grouped
    have two : lists.length = 2 := by simpa using congrArg List.length delivered
    omega
  · cases told

end World

end RemoteNode.Session
