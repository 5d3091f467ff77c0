import AutoUpscale.TileGrid
import AutoUpscale.ScalerContext
import AutoUpscale.ZimgPlan
import AutoUpscale.PoolDispatch
import AutoUpscale.PoolExit
import AutoUpscale.PoolWakeup
import AutoUpscale.PoolProgress
import AutoUpscale.PoolRefine
import AutoUpscale.FrameJobs
import AutoUpscale.PoolLifecycle
import AutoUpscale.UsmInPlace
import AutoUpscale.UsmStatus
import AutoUpscale.UsmSymmetry
import AutoUpscale.ZimgModes
import AutoUpscale.ZimgDrift
import AutoUpscale.FilterLifecycle
import AutoUpscale.UpscaleContract
import AutoUpscale.SwscaleBackend
import AutoUpscale.PluginSystem
import AutoUpscale.PluginBudget
import AutoUpscale.PluginPixels
import AutoUpscale.ZimgBalance
import AutoUpscale.CropView
import AutoUpscale.TunerGain
import AutoUpscale.AdaptivePixels
import AutoUpscale.AdaptiveLimits
import AutoUpscale.TunerExplore
import AutoUpscale.TunerMonitor
import AutoUpscale.GridOptimal
import AutoUpscale.ProbeGate
import AutoUpscale.CpuPinning
import AutoUpscale.CropAlignment
import AutoUpscale.ScratchBounds
import AutoUpscale.UsmStripes
import AutoUpscale.TunerMedian
import AutoUpscale.CpuLevel
import AutoUpscale.ZimgJobs
