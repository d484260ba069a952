import OverlaySaver.ByteStream
import OverlaySaver.Compaction
import OverlaySaver.Transition
import OverlaySaver.Fallible
import OverlaySaver.Words
import OverlaySaver.Formatting
import OverlaySaver.Patching
import OverlaySaver.Skee
import OverlaySaver.ActorData
import OverlaySaver.Racemenu
import OverlaySaver.OverlaySlots
import OverlaySaver.Cosave
import OverlaySaver.CosaveRoundTrip
import OverlaySaver.CosaveTruncation
import OverlaySaver.CosaveStream
import OverlaySaver.Plugin
import OverlaySaver.ActorView
import OverlaySaver.Tables
import OverlaySaver.Appearance
import OverlaySaver.Console
import OverlaySaver.TrimLoops
import OverlaySaver.Dispatch
import OverlaySaver.Lifetime
import OverlaySaver.SavedGame
import OverlaySaver.Restore
import OverlaySaver.Retention
import OverlaySaver.FieldWidths
import OverlaySaver.CosaveFormat
import OverlaySaver.Interfaces
import OverlaySaver.Startup
import OverlaySaver.Queue
import OverlaySaver.Wardrobe
import OverlaySaver.WardrobeRefinement
import OverlaySaver.Display
import OverlaySaver.Footprint
import OverlaySaver.StringPool
import OverlaySaver.Transcript
import OverlaySaver.Host
import OverlaySaver.Hook
import OverlaySaver.Trampoline
