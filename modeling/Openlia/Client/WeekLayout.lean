import Mathlib.Data.Char
import Mathlib.Data.List.Lex
import Openlia.Client.WallTime
import Openlia.Lib.Lanes

/-! # The blocks of a day

The timed events of a day are drawn as blocks from minute to minute. Blocks that overlap stand
beside each other, in as few columns as there can be.
-/

namespace Openlia.Client.WeekLayout

open Lib.Lanes WallTime

/-- Dates for a whole day, and otherwise the instants of the two timestamps. -/
inductive Period where
  | allDay (start finish : Text)
  | timed (start finish : Int)

structure CalendarEvent where
  id : Text
  period : Period

/-- Dates are compared as texts. -/
def onDay (zone : Zone) (day : Text) : Period → Bool
  | .allDay start finish => start ≤ day && day < finish
  | .timed start finish =>
      dateInZone zone start ≤ day && day ≤ dateInZone zone (max start (finish - 1))

/-- The hours and the minutes of `timeInZone` put together again. -/
def minutes (zone : Zone) (t : Int) : Int := zone.localMinute t % 1440

abbrev WeekBlock := Block CalendarEvent Int

def weekBlock (zone : Zone) (day : Text) (event : CalendarEvent) (start finish : Int) : WeekBlock :=
  let top := if dateInZone zone start < day then 0 else minutes zone start
  let stop := if day < dateInZone zone finish then 1440 else minutes zone finish
  ⟨event, top, max (top + 15) stop, 0, 1⟩

def dayBlocks (zone : Zone) (day : Text) (events : List CalendarEvent) : List WeekBlock :=
  events.filterMap fun event =>
    match event.period with
    | .allDay .. => none
    | .timed start finish =>
        if onDay zone day event.period then some (weekBlock zone day event start finish) else none

/-- `a.top - b.top || b.bottom - a.bottom` is not positive. -/
def notAfter (a b : WeekBlock) : Bool := a.top < b.top || (a.top = b.top && b.bottom ≤ a.bottom)

/-- The clusters that `finish` ends. -/
def weekClusters (zone : Zone) (day : Text) (events : List CalendarEvent) : List (List WeekBlock) :=
  clusters [] (-1) ((dayBlocks zone day events).mergeSort notAfter)

def weekBlocks (zone : Zone) (day : Text) (events : List CalendarEvent) : List WeekBlock :=
  (weekClusters zone day events).flatten

section Layout

variable {zone : Zone} {day : Text} {events : List CalendarEvent}

theorem top_lt_bottom {b : WeekBlock} (h : b ∈ dayBlocks zone day events) : b.top < b.bottom := by
  obtain ⟨event, -, hevent⟩ := List.mem_filterMap.mp h
  split at hevent
  · contradiction
  · split at hevent
    · cases hevent
      simp only [weekBlock]
      omega
    · contradiction

theorem sorted_tops : ((dayBlocks zone day events).mergeSort notAfter).Pairwise
    fun a b => a.top ≤ b.top := by
  have hsorted : ((dayBlocks zone day events).mergeSort notAfter).Pairwise
      fun a b => notAfter a b = true :=
    List.pairwise_mergeSort (by simp [notAfter]; omega) (by simp [notAfter]; omega) _
  apply hsorted.imp
  intro a b hab
  simp only [notAfter, Bool.or_eq_true, Bool.and_eq_true, decide_eq_true_eq] at hab
  omega

theorem weekClusters_spec (zone : Zone) (day : Text) (events : List CalendarEvent) :
    (weekBlocks zone day events).map Block.span =
        ((dayBlocks zone day events).mergeSort notAfter).map Block.span ∧
      (∀ g ∈ weekClusters zone day events, ∃ lanes, Finished g lanes) ∧
      (weekClusters zone day events).Pairwise fun g g' => ∀ a ∈ g, ∀ b ∈ g', a.bottom ≤ b.top := by
  apply clusters_spec Cluster.nil
  · intro b hb
    exact top_lt_bottom (List.mem_mergeSort.mp hb)
  · exact sorted_tops
  · simp
  · simp

/-- Each event of the day has its block, and two blocks that overlap are in two of the columns
that the day is divided into there. -/
theorem weekBlocks_apart (zone : Zone) (day : Text) (events : List CalendarEvent) :
    ((weekBlocks zone day events).map Block.span).Perm
        ((dayBlocks zone day events).map Block.span) ∧
      (∀ a ∈ weekBlocks zone day events, a.column < a.columns) ∧
      (weekBlocks zone day events).Pairwise fun a b => a.Overlap b →
        a.column ≠ b.column ∧ a.columns = b.columns := by
  obtain ⟨hspan, hfinished, hseparate⟩ := weekClusters_spec zone day events
  refine ⟨?_, ?_, ?_⟩
  · rw [hspan]
    exact (List.mergeSort_perm _ _).map _
  · intro a ha
    obtain ⟨g, hg, ha⟩ := List.mem_flatten.mp ha
    obtain ⟨lanes, hlanes⟩ := hfinished g hg
    obtain ⟨heq, hlt⟩ := hlanes.within a ha
    rwa [heq]
  · refine List.pairwise_flatten.mpr ⟨?_, ?_⟩
    · intro g hg
      obtain ⟨lanes, hlanes⟩ := hfinished g hg
      refine hlanes.apart.imp_of_mem ?_
      intro a b ha hb hab hoverlap
      exact ⟨hab hoverlap, (hlanes.within a ha).1.trans (hlanes.within b hb).1.symm⟩
    · apply hseparate.imp
      intro g g' hg a ha b hb hoverlap
      exact absurd (hg a ha b hb) (not_le.mpr hoverlap.2)

/-- The blocks fall into clusters that follow each other, and no other division of a cluster into
columns, in which blocks that overlap are apart, has fewer columns. -/
theorem weekBlocks_fewest_columns (zone : Zone) (day : Text) (events : List CalendarEvent) :
    ∃ groups : List (List WeekBlock), weekBlocks zone day events = groups.flatten ∧
      groups.Pairwise (fun g g' => ∀ a ∈ g, ∀ b ∈ g', a.bottom ≤ b.top) ∧
      ∀ g ∈ groups, ∀ (other : List (WeekBlock × Nat)) (n : Nat), other.map Prod.fst = g →
        other.Pairwise (fun p q => p.1.Overlap q.1 → p.2 ≠ q.2) → (∀ p ∈ other, p.2 < n) →
          ∀ a ∈ g, a.columns ≤ n := by
  obtain ⟨-, hfinished, hseparate⟩ := weekClusters_spec zone day events
  refine ⟨weekClusters zone day events, rfl, hseparate, ?_⟩
  intro g hg other n hother hapart hn a ha
  obtain ⟨lanes, hlanes⟩ := hfinished g hg
  rw [(hlanes.within a ha).1]
  exact hlanes.fewest (List.ne_nil_of_mem ha) hother hapart hn

end Layout

end Openlia.Client.WeekLayout
