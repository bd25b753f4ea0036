import Zcp.Common.TimeUtil
import Zcp.FreeBusy.ECFBBlockList

/-!
# Free/busy properties

`CreateFBProp` and `ParseFBEvents` of `libfreebusy/freebusyutil.cpp`. A free/busy property has one
entry for each month, with events that are given by minutes of this month. `none` is a write behind the
end of an array.
-/

namespace Zcp.FreeBusy

open Zcp.Lib Zcp.Common

/-- `ULONG`. -/
abbrev ULONG := BitVec 32

/-- `short`. -/
abbrev SHORT := BitVec 16

/-- `sfbEvent`. -/
structure SfbEvent where
  rtmStart : SHORT
  rtmEnd : SHORT
deriving DecidableEq, Repr

/-- `fbZarafaAllBusy`. -/
def fbZarafaAllBusy : ℕ := 1000

def FB_YEARMONTH (year month : ℤ) : LONG :=
  ((BitVec.ofInt 16 year).setWidth 32 <<< 4 &&& 0xFFF0) ||| (BitVec.ofInt 16 month).setWidth 32

def FB_YEAR (yearmonth : LONG) : ℤ := (yearmonth.setWidth 16 >>> 4).toNat

def FB_MONTH (yearmonth : LONG) : ℤ := (yearmonth.setWidth 16 &&& 0x000F).toNat

/-! ## Writing -/

def leapyear (year : ℤ) : Bool := year % 4 = 0 ∧ (year % 100 ≠ 0 ∨ year % 400 = 0)

/-- `getMaxMonthMinutes`, with the old value of the minutes, which an error leaves. -/
def getMaxMonthMinutes (year month : ℤ) (minutes : SHORT) : SHORT :=
  if month < 0 ∨ month > 11 ∨ year < 1601 then minutes
  else
    let days : ℤ := match (month + 1).toNat with
      | 1 | 3 | 5 | 7 | 8 | 10 | 12 => 31
      | 4 | 6 | 9 | 11 => 30
      | 2 => if leapyear year then 29 else 28
      | _ => 0
    BitVec.ofInt 16 (days * (24 * 60))

/-- `DiffYearMonthToMonth`. -/
def diffYearMonthToMonth (tm1 tm2 : Tm) : ℤ :=
  if tm1.tm_year = tm2.tm_year then tm2.tm_mon - tm1.tm_mon
  else if tm2.tm_year > tm1.tm_year ∧ tm2.tm_mon ≥ tm1.tm_mon then
    12 * (tm2.tm_year - tm1.tm_year) + tm2.tm_mon - tm1.tm_mon
  else if tm2.tm_year > tm1.tm_year ∧ tm2.tm_mon < tm1.tm_mon then
    12 * (tm2.tm_year - tm1.tm_year - 1) + (tm2.tm_mon + 1) + (11 - tm1.tm_mon)
  else 0

/-- An entry of the two arrays. -/
structure FBMonth where
  lpl : LONG
  lpbin : List SfbEvent
deriving DecidableEq, Repr

/-- The variables of `CreateFBProp`. `iMonth` is the place of the last entry. -/
structure FBPropState where
  entries : List FBMonth
  ulLastYear : ℤ
  ulLastMonth : ℤ
  bFound : Bool

def FBPropState.iMonth (st : FBPropState) : ℤ := st.entries.length - 1

/-- The sizes of the arrays, which the allocator gets in 32 bits. -/
structure FBPropSizes where
  ulMonths : ULONG
  ulMaxItemDataSize : ULONG

/-- Both arrays have room for some entries. -/
def FBPropSizes.Entries (sizes : FBPropSizes) (n : ℕ) : Prop :=
  n * 4 ≤ (sizes.ulMonths + 1).toNat * 4 % 2 ^ 32 ∧ n * 16 ≤ (sizes.ulMonths + 1).toNat * 16 % 2 ^ 32

/-- An entry has room for some events. -/
def FBPropSizes.Events (sizes : FBPropSizes) (n : ℕ) : Prop := n * 4 ≤ sizes.ulMaxItemDataSize.toNat

instance (sizes : FBPropSizes) : DecidablePred sizes.Entries :=
  fun _ => inferInstanceAs (Decidable (_ ∧ _))

instance (sizes : FBPropSizes) : DecidablePred sizes.Events :=
  fun _ => inferInstanceAs (Decidable (_ ≤ _))

section Writing

variable (sizes : FBPropSizes)

/-- A new entry without events. -/
def openMonth (tm_year tm_mon : ℤ) (entries : List FBMonth) : Option (List FBMonth) :=
  if sizes.Entries (entries.length + 1) then
    some (entries ++ [⟨FB_YEARMONTH (tm_year + 1900) (tm_mon + 1), []⟩])
  else none

/-- Add an event to the last entry. -/
def addEvent (fbEvent : SfbEvent) (entries : List FBMonth) : Option (List FBMonth) :=
  match entries.getLast? with
  | none => none
  | some last =>
    if sizes.Events (last.lpbin.length + 1) then
      some (entries.dropLast ++ [{ last with lpbin := last.lpbin ++ [fbEvent] }])
    else none

/-- The minutes from the start of the month. -/
def monthMinutes (tm : Tm) : SHORT :=
  BitVec.ofInt 16 ((tm.tm_mday - 1) * 24 * 60 + tm.tm_hour * 60 + tm.tm_min)

/-- The minutes of a month; the years are `short`s. -/
def maxMonthMinutes (tm_year tm_mon : ℤ) : SHORT :=
  getMaxMonthMinutes (BitVec.ofInt 16 ((BitVec.ofInt 16 tm_year).toInt + 1900)).toInt
    (BitVec.ofInt 16 tm_mon).toInt 0

/-- The next month, as `mktime` normalizes it. -/
def nextMonth (tmTmp : ℤ × ℤ) : ℤ × ℤ :=
  ((12 * tmTmp.1 + tmTmp.2 + 1) / 12, (12 * tmTmp.1 + tmTmp.2 + 1) % 12)

/-- Whole months of a block, as long as there are fewer than `ulMonths` entries. -/
def wholeMonths : ℕ → ℤ × ℤ → List FBMonth → Option ((ℤ × ℤ) × List FBMonth)
  | 0, tmTmp, entries => some (tmTmp, entries)
  | n + 1, tmTmp, entries =>
    if entries.length < sizes.ulMonths.toNat then do
      let tmTmp := nextMonth tmTmp
      let entries ← openMonth sizes tmTmp.1 tmTmp.2 entries
      let entries ← addEvent sizes ⟨0, maxMonthMinutes tmTmp.1 tmTmp.2⟩ entries
      wholeMonths n tmTmp entries
    else some (tmTmp, entries)

/-- The first part of a block, its whole months, and a new entry for its end. -/
def severalMonths (tmStart tmEnd : Tm) (entries : List FBMonth) : Option (List FBMonth) := do
  let entries ← addEvent sizes
    ⟨monthMinutes tmStart, maxMonthMinutes tmStart.tm_year tmStart.tm_mon⟩ entries
  let ulDiffMonths := diffYearMonthToMonth tmStart tmEnd
  let (tmTmp, entries) ← wholeMonths sizes (ulDiffMonths - 1).toNat
    (tmStart.tm_year, tmStart.tm_mon) entries
  let tmTmp := nextMonth tmTmp
  openMonth sizes tmTmp.1 tmTmp.2 entries

/-- The entry of the month in which a block starts. -/
def firstMonth (tmStart : Tm) (st : FBPropState) : Option (List FBMonth) :=
  if tmStart.tm_year > st.ulLastYear ∨ tmStart.tm_mon > st.ulLastMonth then
    openMonth sizes tmStart.tm_year tmStart.tm_mon st.entries
  else some st.entries

/-- The entries up to the last event of a block, and the start of this event. -/
def laterMonths (tmStart tmEnd : Tm) (entries : List FBMonth) : Option (SHORT × List FBMonth) :=
  if tmEnd.tm_year > tmStart.tm_year ∨ tmEnd.tm_mon > tmStart.tm_mon then
    (severalMonths sizes tmStart tmEnd entries).map fun entries => (0, entries)
  else some (monthMinutes tmStart, entries)

/-- The body of the loop, for a block of the wanted status. -/
def writeBlock (fbBlk : FBBlock_1) (st : FBPropState) : Option FBPropState := do
  let tmStart := gmtimeSafe (rTimeToUnixTime (BitVec.ofInt 32 fbBlk.m_tmStart))
  let tmEnd := gmtimeSafe (rTimeToUnixTime (BitVec.ofInt 32 fbBlk.m_tmEnd))
  let entries ← firstMonth sizes tmStart st
  let (rtmStart, entries) ← laterMonths sizes tmStart tmEnd entries
  let entries ← addEvent sizes ⟨rtmStart, monthMinutes tmEnd⟩ entries
  some ⟨entries, tmEnd.tm_year, tmEnd.tm_mon, true⟩

/-- The loop over the blocks that `Next` returns. -/
def writeBlocks (fbStatus : ℕ) : List FBBlock_1 → FBPropState → Option FBPropState
  | [], st => some st
  | fbBlk :: blocks, st =>
    if st.iMonth < sizes.ulMonths.toInt then
      if fbBlk.m_fbstatus = fbStatus ∨ fbStatus = fbZarafaAllBusy then do
        let st ← writeBlock sizes fbBlk st
        writeBlocks fbStatus blocks st
      else writeBlocks fbStatus blocks st
    else some st

end Writing

/-- The values of the two properties. -/
structure FBProps where
  months : List LONG
  events : List (List SfbEvent)
deriving DecidableEq, Repr

/-- `CreateFBProp`. -/
def createFBProp (fbStatus : ℕ) (ulMonths : ULONG) (lpfbBlockList : ECFBBlockList) :
    Option (ECFBBlockList.HRESULT × Option FBProps) := do
  let sizes : FBPropSizes := ⟨ulMonths, (BitVec.ofNat 32 lpfbBlockList.size + 1) * 4⟩
  let st ← writeBlocks sizes fbStatus lpfbBlockList.blocks ⟨[], 0, 0, false⟩
  if st.bFound then
    some (.hrSuccess, some ⟨st.entries.map FBMonth.lpl, st.entries.map FBMonth.lpbin⟩)
  else some (.MAPI_E_NOT_FOUND, none)

/-! ## Reading -/

/-- The relative time of a minute of a month. -/
def eventTime (lpl : LONG) (rtm : SHORT) : ℤ :=
  unixTimeToRTime (timegm (FB_YEAR lpl - 1900) (FB_MONTH lpl - 1) rtm.toNat)

/-- The body of the loop, with the end of the block before. -/
def readEvent (fbSts : ℕ) (st : ℤ × ECFBBlockList) (event : LONG × SfbEvent) : ℤ × ECFBBlockList :=
  let rtmStart := eventTime event.1 event.2.rtmStart
  let rtmEnd := eventTime event.1 event.2.rtmEnd
  let fbBlock : FBBlock_1 := ⟨rtmStart, rtmEnd, fbSts⟩
  if st.1 = rtmStart then (rtmEnd, (st.2.merge fbBlock).2) else (rtmEnd, st.2.add fbBlock)

/-- The events of all months, one after another. -/
def allEvents (months : List LONG) (events : List (List SfbEvent)) : List (LONG × SfbEvent) :=
  (months.zip events).flatMap fun p => p.2.map fun e => (p.1, e)

/-- `ParseFBEvents`. -/
def parseFBEvents (fbSts : ℕ) (props : FBProps) (lpfbBlockList : ECFBBlockList) :
    ECFBBlockList.HRESULT × ECFBBlockList :=
  if props.events.length ≠ props.months.length then (.MAPI_E_INVALID_PARAMETER, lpfbBlockList)
  else (.hrSuccess,
    ((allEvents props.months props.events).foldl (readEvent fbSts) (0, lpfbBlockList)).2)

end Zcp.FreeBusy
