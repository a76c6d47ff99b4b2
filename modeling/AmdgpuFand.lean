import AmdgpuFand.Lib.PiecewiseLinear
import AmdgpuFand.Lib.Automaton
import AmdgpuFand.Lib.Cells
import AmdgpuFand.Lib.Reads
import AmdgpuFand.Lib.Ere
import AmdgpuFand.Lib.CString
import AmdgpuFand.Server
import AmdgpuFand.Hysteresis
import AmdgpuFand.PwmRange
import AmdgpuFand.Reload
import AmdgpuFand.MatrixPrint
import AmdgpuFand.MatrixSound
import AmdgpuFand.Sigchld
import AmdgpuFand.FailedStart
import AmdgpuFand.FanctrlCalls
import AmdgpuFand.Decoders
import AmdgpuFand.Sighup
import AmdgpuFand.Lib.Sha1
import AmdgpuFand.Sha1
import AmdgpuFand.Cache
import AmdgpuFand.Hwmon
import AmdgpuFand.Comments
import AmdgpuFand.Descriptors
import AmdgpuFand.Restart
import AmdgpuFand.CacheFile
import AmdgpuFand.Composition
import AmdgpuFand.Counts
import AmdgpuFand.Destinations
import AmdgpuFand.Format
import AmdgpuFand.Sensor
import AmdgpuFand.Lib.Nearest
import AmdgpuFand.Release
import AmdgpuFand.Joining
import AmdgpuFand.Paths
import AmdgpuFand.NumericSettings
import AmdgpuFand.ExitRequest
import AmdgpuFand.Watch
import AmdgpuFand.Speed
import AmdgpuFand.HandBack
import AmdgpuFand.TrailingSpace
import AmdgpuFand.Order
import AmdgpuFand.TypeNames
import AmdgpuFand.Copies
import AmdgpuFand.EventScan
import AmdgpuFand.FdreadUlong
import AmdgpuFand.Request
import AmdgpuFand.Running
import AmdgpuFand.Service
import AmdgpuFand.Changes
import AmdgpuFand.Starts
import AmdgpuFand.Instances
import AmdgpuFand.BrokenPipe
import AmdgpuFand.Oscillation
import AmdgpuFand.Drm
import AmdgpuFand.Repack
