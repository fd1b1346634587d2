import ChatPreferences.Text.Blank
import ChatPreferences.Text.LetterCase
import ChatPreferences.Text.Units
import ChatPreferences.Text.Utf8
import ChatPreferences.Number.Numeral
import ChatPreferences.Number.Shortest
import ChatPreferences.Setting.Kind
import ChatPreferences.Document.Parser
import ChatPreferences.Document.Printer
import ChatPreferences.Bar
import ChatPreferences.Key.Defaults
import ChatPreferences.Calendar.Pattern
import ChatPreferences.Store.Reload
import ChatPreferences.Store.File
import ChatPreferences.DayNotice.Habit
import ChatPreferences.Watch
import ChatPreferences.Launch
import ChatPreferences.Client
import ChatPreferences.Console.Session
import ChatPreferences.Main
import ChatPreferences.Proofs.Bar.History
import ChatPreferences.Proofs.Key.History
import ChatPreferences.Proofs.Client.Restart
import ChatPreferences.Proofs.Client.Lossless
import ChatPreferences.Proofs.DayNotice.Deferral
import ChatPreferences.Proofs.Store.Calls
import ChatPreferences.Proofs.Store.Reloading
import ChatPreferences.Proofs.Store.Reacting
import ChatPreferences.Proofs.Client.Notice
import ChatPreferences.Proofs.Client.Watching
import ChatPreferences.Proofs.Client.Ending
import ChatPreferences.Proofs.Console.Leaving
import ChatPreferences.Proofs.Document.Layout
import ChatPreferences.Proofs.Document.Written
import ChatPreferences.Proofs.Key.Retraction
import ChatPreferences.Proofs.Number.Rounding
import ChatPreferences.Proofs.Setting.Whole
import ChatPreferences.Proofs.Bar.Grammar
import ChatPreferences.Proofs.Watch.TakenBack
import ChatPreferences.Proofs.LogLevel.Pauses
import ChatPreferences.Proofs.Key.Pressing
import ChatPreferences.Proofs.Disk.AllOrNothing
import ChatPreferences.Proofs.Calendar.Pieces
import ChatPreferences.Proofs.Console.Naming
import ChatPreferences.Proofs.DayNotice.Periods
